import Stencil.Files
import Stencil.Proofs.Render.Failures

/-! A file put where a name has room for one is found under that name again. Nothing that is a directory stops being one,
so every part of the name leads where it led before. -/

namespace Stencil.Files

variable {files : Files} {route place place' : Route} {e : Entry}

theorem entries_set (files : Files) (route : Route) (e : Entry) :
    (files.set route e).entries = (route, e) :: files.entries.filter (·.1 ≠ route) := rfl

theorem lookup_filter_ne (entries : List (Route × Entry)) (h : place ≠ route) :
    (entries.filter (·.1 ≠ route)).lookup place = entries.lookup place := by
  induction entries with
  | nil => rfl
  | cons entry entries ih =>
    obtain ⟨r, x⟩ := entry
    by_cases hr : r = route
    · have hne : (place == r) = false := by simpa [hr] using h
      rw [List.filter_cons_of_neg (by simpa using hr), ih, List.lookup_cons, hne]
    · rw [List.filter_cons_of_pos (by simpa using hr), List.lookup_cons, List.lookup_cons, ih]

theorem set_set (files : Files) (route : Route) (e e' : Entry) :
    (files.set route e).set route e' = files.set route e' := by
  refine congrArg Files.mk ?_
  rw [entries_set, List.filter_cons_of_neg (by simp), List.filter_filter]
  simp only [Bool.and_self]

theorem lookup_set_self (files : Files) (route : Route) (e : Entry) :
    (files.set route e).entries.lookup route = some e := List.lookup_cons_self

theorem entry?_set_self (files : Files) (route : Route) (e : Entry) :
    Files.entry? (files.set route e) route = some e := by
  unfold entry?
  rw [lookup_set_self]

/-- What is on the way to some entry, or above all, is so whatever is put anywhere. -/
theorem entry?_set_of_directory (h : files.entry? place = some .directory) (hne : place ≠ route) :
    Files.entry? (files.set route e) place = some .directory := by
  have found : (files.set route e).entries.lookup place = files.entries.lookup place := by
    have other : (place == route) = false := by simpa using hne
    rw [entries_set, List.lookup_cons, other]
    exact lookup_filter_ne files.entries hne
  unfold entry? at h ⊢
  rw [found]
  split at h
  · exact h
  · split at h
    · next hway =>
      rw [if_pos]
      rw [Bool.or_eq_true, List.any_eq_true] at hway ⊢
      rcases hway with houter | ⟨⟨r, x⟩, hmem, hprefix⟩
      · exact .inl houter
      · refine .inr ?_
        by_cases hr : r = route
        · exact ⟨(route, e), List.mem_cons_self, by rwa [hr] at hprefix⟩
        · exact ⟨(r, x), List.mem_cons_of_mem _ (List.mem_filter.2 ⟨hmem, by simpa using hr⟩), hprefix⟩
    · cases h

theorem entry?_of_enter {part : String} (h : files.enter place part = .ok place') :
    files.entry? place = some .directory ∧ place' = place.extend part := by
  unfold enter at h
  split at h
  · cases h
  · cases h
  · next hdirectory =>
    split at h
    · cases h
    · exact ⟨hdirectory, (Except.ok.inj h).symm⟩

section Put

variable (hroute : files.entry? route ≠ some .directory)

include hroute

theorem enter_set {part : String} (h : files.enter place part = .ok place') :
    (files.set route e).enter place part = .ok place' := by
  have hdirectory := (entry?_of_enter h).1
  have hne : place ≠ route := by
    rintro rfl
    exact hroute hdirectory
  unfold enter at h ⊢
  rw [entry?_set_of_directory hdirectory hne]
  rwa [hdirectory] at h

/-- A name that leads somewhere leads there after an entry is put where no directory was. -/
theorem foldlM_enter_set {parts : List String} (h : parts.foldlM files.enter place = .ok place') :
    parts.foldlM (files.set route e).enter place = .ok place' := by
  induction parts generalizing place with
  | nil => exact h
  | cons part parts ih =>
    rw [List.foldlM_cons] at h ⊢
    obtain ⟨next, hnext, h⟩ := ok_of_bind h
    rw [enter_set hroute hnext]
    exact ih h

end Put

theorem follow_eq_ok_iff {name : String} {parts : List String} :
    files.follow name parts = .ok place ↔
      ('\x00' ∉ name.toList ∧ name.utf8ByteSize ≤ maxName) ∧
        parts.foldlM files.enter (Route.origin name) = .ok place := by
  unfold follow
  by_cases hnull : '\x00' ∈ name.toList
  · simp [hnull]
  · by_cases hlong : maxName < name.utf8ByteSize
    · simp [hnull, hlong, Nat.not_le.2 hlong]
    · simp [hnull, hlong, Nat.not_lt.1 hlong]

/-- Nothing is dropped from the end of parts of which the last is not empty. -/
theorem parts_eq_of_last {parts before : List String} {last : String} (hlast : parts.getLast? ≠ some "")
    (h : parts.reverse.dropWhile (· = "") = last :: before) : parts = before.reverse ++ [last] := by
  rw [← List.head?_reverse] at hlast
  cases hparts : parts.reverse with
  | nil =>
    rw [hparts] at h
    cases h
  | cons part rest =>
    have hpart : part ≠ "" := by
      rintro rfl
      exact hlast (by rw [hparts, List.head?_cons])
    rw [hparts, List.dropWhile_cons_of_neg (by simpa using hpart)] at h
    rw [← List.reverse_cons, ← h, ← hparts, List.reverse_reverse]

/-- A name with room for a file leads to the place for it, and there is no directory in that place. -/
theorem follow_of_vacancy {name : String} (h : files.vacancy name = .ok route) :
    files.follow name (Route.parts name) = .ok route ∧ files.entry? route ≠ some .directory := by
  unfold vacancy at h
  split at h
  · cases h
  · next last before hparts =>
    obtain ⟨directory, hbefore, h⟩ := ok_of_bind h
    split at h
    · cases h
    · next hlast =>
      obtain ⟨place, henter, h⟩ := ok_of_bind h
      split at h
      · cases h
      · next hfree =>
        obtain rfl : place = route := Except.ok.inj h
        obtain ⟨hname, hbefore⟩ := follow_eq_ok_iff.1 hbefore
        rw [List.foldlM_append] at hbefore
        obtain ⟨parent, hparent, hdot⟩ := ok_of_bind hbefore
        simp only [List.foldlM_cons, List.foldlM_nil, bind_pure] at hdot
        -- the point at the end asks for a directory and stays in it
        obtain rfl : directory = parent := (entry?_of_enter hdot).2
        refine ⟨follow_eq_ok_iff.2 ⟨hname, ?_⟩, hfree⟩
        rw [parts_eq_of_last hlast hparts, List.foldlM_append, hparent]
        show [last].foldlM files.enter directory = .ok place
        simpa only [List.foldlM_cons, List.foldlM_nil, bind_pure] using henter

theorem read_set_of_vacancy {name : String} (h : files.vacancy name = .ok route) (bytes : List UInt8) :
    (files.set route (.file bytes)).read name = .ok bytes := by
  obtain ⟨hfollow, hfree⟩ := follow_of_vacancy h
  obtain ⟨hname, hparts⟩ := follow_eq_ok_iff.1 hfollow
  have found : (files.set route (.file bytes)).follow name (Route.parts name) = .ok route :=
    follow_eq_ok_iff.2 ⟨hname, foldlM_enter_set hfree hparts⟩
  unfold read
  rw [found]
  dsimp only [bind, Except.bind]
  rw [entry?_set_self]
  rfl

theorem append_set (files : Files) (route : Route) (old new : List UInt8) :
    (files.set route (.file old)).append route new = files.set route (.file (old ++ new)) := by
  rw [append, lookup_set_self]
  exact set_set files route _ _

end Stencil.Files
