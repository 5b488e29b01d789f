import Mathlib.Data.List.Forall2
import Mathlib.Data.List.TakeWhile
import Stencil.Directive.Grammar
import Stencil.Text.Case

/-! What paths look like in directive values. A path is read from the text that it is written as, and from no other;
hence a reader is known from what it accepts. -/

namespace Stencil

/-- Letters, digits and underscores of ASCII. -/
def IsWordChar (c : Char) : Prop :=
  ('A' ≤ c ∧ c ≤ 'Z') ∨ ('a' ≤ c ∧ c ≤ 'z') ∨ ('0' ≤ c ∧ c ≤ '9') ∨ c = '_'

def IsIdentifier (s : String) : Prop := s ≠ "" ∧ ∀ c ∈ s.toList, IsWordChar c

def Segment.name : Segment → String
  | property name => name
  | call name => name

def Segment.isCall : Segment → Bool
  | property _ => false
  | call _ => true

namespace Path

def HasIdentifiers (p : Path) : Prop := IsIdentifier p.root ∧ ∀ x ∈ p.segments, IsIdentifier x.name

def HasNoCall (p : Path) : Prop := ∀ x ∈ p.segments, x.isCall = false

def CallsLast (p : Path) : Prop := ∀ x ∈ p.segments.dropLast, x.isCall = false

end Path

def PathLimit.Holds (l : PathLimit) (p : Path) : Prop := ∀ n ∈ l.most, p.segments.length ≤ n

theorem PathLimit.allows_iff {l : PathLimit} {p : Path} : l.allows p = true ↔ l.Holds p := by
  unfold allows Holds
  cases l.most <;> simp

namespace Grammar

theorem isNameChar_iff {c : Char} : isNameChar c = true ↔ IsWordChar c := by
  have letter : c.isAlpha = true ↔ ('A' ≤ c ∧ c ≤ 'Z') ∨ ('a' ≤ c ∧ c ≤ 'z') := Text.isAlpha_iff
  have digit : c.isDigit = true ↔ '0' ≤ c ∧ c ≤ '9' := by
    simp only [Char.isDigit, Bool.and_eq_true, decide_eq_true_eq, ge_iff_le]
    exact Iff.rfl
  simp only [isNameChar, IsWordChar, Char.isAlphanum, letter, digit, Bool.or_eq_true, decide_eq_true_eq, or_assoc]

/-- The text begins with no character of a name. -/
def EndsName (r : List Char) : Prop := ∀ c ∈ r.head?, isNameChar c = false

theorem name?_eq_some_iff {s r : List Char} {n : String} :
    name? s = some (n, r) ↔ s = n.toList ++ r ∧ IsIdentifier n ∧ EndsName r := by
  constructor
  · intro h
    simp only [name?] at h
    split at h
    · cases h
    · next hne =>
      obtain ⟨rfl, rfl⟩ := Prod.mk.inj (Option.some.inj h)
      refine ⟨by simp, ⟨fun he => hne (by simpa using he), fun c hc => ?_⟩, Text.head?_dropWhile⟩
      rw [String.toList_ofList] at hc
      exact isNameChar_iff.1 (List.mem_takeWhile_imp hc)
  · rintro ⟨rfl, ⟨hne, hchars⟩, hr⟩
    have all : ∀ c ∈ n.toList, isNameChar c = true := fun c hc => isNameChar_iff.2 (hchars c hc)
    have stop : r.takeWhile isNameChar = [] ∧ r.dropWhile isNameChar = r := by
      cases r with
      | nil => exact ⟨rfl, rfl⟩
      | cons c r => simp [hr c rfl]
    have taken : (n.toList ++ r).takeWhile isNameChar = n.toList := by
      rw [List.takeWhile_append_of_pos all, stop.1, List.append_nil]
    have left : (n.toList ++ r).dropWhile isNameChar = r := by
      rw [List.dropWhile_append_of_pos all, stop.2]
    simp only [name?, taken, left]
    split
    · next h => exact absurd (by simpa using h) hne
    · simp

def written (segments : List Segment) : List Char := segments.flatMap fun x => x.text.toList

theorem written_property (n : String) (segments : List Segment) :
    written (.property n :: segments) = '.' :: (n.toList ++ written segments) := by
  simp [written, Segment.text, Segment.label]

theorem written_call (n : String) (segments : List Segment) :
    written (.call n :: segments) = '.' :: (n.toList ++ ('(' :: ')' :: written segments)) := by
  simp [written, Segment.text, Segment.label]

theorem toList_text (p : Path) :
    p.text.toList = '$' :: '\x7b' :: (p.root.toList ++ (written p.segments ++ ['\x7d'])) := by
  have join : ∀ xs : List String, (String.join xs).toList = xs.flatMap String.toList := by
    intro xs
    induction xs with
    | nil => rfl
    | cons x xs ih => rw [String.join_cons, String.toList_append, ih, List.flatMap_cons]
  have opening : "$\x7b".toList = ['$', '\x7b'] := by decide
  simp [Path.text, join, written, opening, List.flatMap_map]

/-- Segments that a path may have: identifiers for names, and a call at most at the end, where calls are allowed. -/
def Readable (calls : Bool) (segments : List Segment) : Prop :=
  (∀ x ∈ segments, IsIdentifier x.name) ∧ (∀ x ∈ segments.dropLast, x.isCall = false) ∧
    (calls = false → ∀ x ∈ segments, x.isCall = false)

theorem readable_nil (calls : Bool) : Readable calls [] := ⟨by simp, by simp, by simp⟩

theorem readable_property {calls : Bool} {n : String} {segments : List Segment} :
    Readable calls (.property n :: segments) ↔ IsIdentifier n ∧ Readable calls segments := by
  cases segments with
  | nil => simp [Readable, Segment.name, Segment.isCall]
  | cons x segments =>
    simp only [Readable, List.dropLast_cons_cons, List.forall_mem_cons, Segment.name, Segment.isCall]
    tauto

theorem readable_call {calls : Bool} {n : String} {segments : List Segment} :
    Readable calls (.call n :: segments) ↔ IsIdentifier n ∧ calls = true ∧ segments = [] := by
  cases segments with
  | nil => cases calls <;> simp [Readable, Segment.name, Segment.isCall]
  | cons x segments => simp [Readable, Segment.isCall]

theorem segments?_sound {calls : Bool} {s r : List Char} {segments : List Segment}
    (h : segments? calls s = some (segments, r)) : s = written segments ++ r ∧ Readable calls segments := by
  fun_induction segments? calls s generalizing segments r with
  | case1 => cases h
  | case2 rest n after hname rest' hcall hcalls =>
    obtain ⟨rfl, rfl⟩ := Prod.mk.inj (Option.some.inj h)
    obtain ⟨rfl, hn, -⟩ := name?_eq_some_iff.1 hname
    obtain rfl := after?_eq_some_iff.1 hcall
    exact ⟨by rw [written_call]; simp [written], readable_call.2 ⟨hn, hcalls, rfl⟩⟩
  | case3 => cases h
  | case4 rest n after hname hcall ih =>
    obtain ⟨⟨later, r'⟩, hlater, heq⟩ := Option.map_eq_some_iff.1 h
    obtain ⟨rfl, rfl⟩ := Prod.mk.inj heq
    obtain ⟨rfl, hn, -⟩ := name?_eq_some_iff.1 hname
    obtain ⟨rfl, hreadable⟩ := ih hlater
    exact ⟨by rw [written_property]; simp, readable_property.2 ⟨hn, hreadable⟩⟩
  | case5 s hs =>
    obtain ⟨rfl, rfl⟩ := Prod.mk.inj (Option.some.inj h)
    exact ⟨rfl, readable_nil calls⟩

theorem endsName_written (segments : List Segment) (r : List Char) :
    EndsName (written segments ++ '\x7d' :: r) := by
  cases segments with
  | nil => rintro _ ⟨⟩; decide
  | cons x segments =>
    cases x with
    | property n => rw [written_property]; rintro _ ⟨⟩; decide
    | call n => rw [written_call]; rintro _ ⟨⟩; decide

/-- What follows the name of a property is no call. -/
theorem after?_call_written (segments : List Segment) (r : List Char) :
    after? ['(', ')'] (written segments ++ '\x7d' :: r) = none := by
  cases segments with
  | nil => rfl
  | cons x segments =>
    cases x with
    | property n => rw [written_property]; rfl
    | call n => rw [written_call]; rfl

theorem segments?_dot {calls : Bool} {s r : List Char} {n : String} (h : name? s = some (n, r)) :
    segments? calls ('.' :: s) = match after? ['(', ')'] r with
      | some r => if calls then some ([.call n], r) else none
      | none => (segments? calls r).map fun (segments, rest) => (.property n :: segments, rest) := by
  rw [segments?.eq_1]
  split
  · next hnone => rw [h] at hnone; cases hnone
  · next name rest hsome =>
    obtain ⟨rfl, rfl⟩ := Prod.mk.inj (Option.some.inj (h.symm.trans hsome))
    rfl

theorem segments?_written {calls : Bool} {segments : List Segment} (h : Readable calls segments) (r : List Char) :
    segments? calls (written segments ++ '\x7d' :: r) = some (segments, '\x7d' :: r) := by
  induction segments with
  | nil => rw [segments?.eq_def]; rfl
  | cons x segments ih =>
    cases x with
    | property n =>
      obtain ⟨hn, hrest⟩ := readable_property.1 h
      have hname : name? (n.toList ++ (written segments ++ '\x7d' :: r)) = some (n, written segments ++ '\x7d' :: r) :=
        name?_eq_some_iff.2 ⟨rfl, hn, endsName_written segments r⟩
      rw [written_property, List.cons_append, List.append_assoc, segments?_dot hname, after?_call_written]
      simp [ih hrest]
    | call n =>
      obtain ⟨hn, rfl, rfl⟩ := readable_call.1 h
      have hends : EndsName ('(' :: ')' :: '\x7d' :: r) := by rintro _ ⟨⟩; decide
      have hname : name? (n.toList ++ ('(' :: ')' :: '\x7d' :: r)) = some (n, '(' :: ')' :: '\x7d' :: r) :=
        name?_eq_some_iff.2 ⟨rfl, hn, hends⟩
      rw [written_call, List.cons_append, List.append_assoc]
      exact segments?_dot hname

/-- An interpolation is read from what its path is written as, and from nothing else. -/
theorem path?_eq_some_iff {calls : Bool} {s : List Char} {p : Path} :
    path? calls s = some p ↔ s = p.text.toList ∧ IsIdentifier p.root ∧ Readable calls p.segments := by
  rw [toList_text]
  constructor
  · intro h
    simp only [path?, Option.bind_eq_bind, Option.bind_eq_some_iff, Prod.exists] at h
    obtain ⟨inside, hopen, root, rest, hroot, segments, last, hsegments, hlast⟩ := h
    split at hlast
    · next hclose =>
      obtain rfl := Option.some.inj hlast
      obtain ⟨rfl, hname, -⟩ := name?_eq_some_iff.1 hroot
      obtain ⟨rfl, hreadable⟩ := segments?_sound hsegments
      obtain rfl := after?_eq_some_iff.1 hopen
      exact ⟨by rw [hclose]; rfl, hname, hreadable⟩
    · cases hlast
  · rintro ⟨rfl, hname, hreadable⟩
    have hroot : name? (p.root.toList ++ (written p.segments ++ ['\x7d'])) = some (p.root, written p.segments ++ ['\x7d']) :=
      name?_eq_some_iff.2 ⟨rfl, hname, endsName_written p.segments []⟩
    simp [path?, after?, hroot, segments?_written hreadable []]

end Grammar

/-! ### The three readers -/

theorem Path.read?_eq_some_iff {limit : PathLimit} {s : String} {p : Path} :
    Path.read? limit s = some p ↔ s = p.text ∧ p.HasIdentifiers ∧ p.HasNoCall ∧ limit.Holds p := by
  have readable : Grammar.Readable false p.segments ↔ (∀ x ∈ p.segments, IsIdentifier x.name) ∧ p.HasNoCall :=
    ⟨fun h => ⟨h.1, h.2.2 rfl⟩, fun h => ⟨h.1, fun x hx => h.2 x (List.dropLast_subset _ hx), fun _ => h.2⟩⟩
  rw [Path.read?, Option.filter_eq_some_iff, Grammar.path?_eq_some_iff, PathLimit.allows_iff, readable,
    String.toList_inj, HasIdentifiers]
  tauto

theorem Text.trimStart_append {w s : List Char} (hw : ∀ c ∈ w, isBlank c) (hs : ∀ c ∈ s.head?, isBlank c = false) :
    trimStart (w ++ s) = s := by
  rw [trimStart, List.dropWhile_append_of_pos hw]
  exact trimStart_eq_self hs

theorem Text.exists_trimStart (s : List Char) : ∃ w, (∀ c ∈ w, isBlank c) ∧ s = w ++ trimStart s :=
  ⟨s.takeWhile isBlank, fun _ hc => List.mem_takeWhile_imp hc, List.takeWhile_append_dropWhile.symm⟩

theorem IsWordChar.notBlank {c : Char} (h : IsWordChar c) : Text.isBlank c = false := by
  by_contra hb
  have apart : c.toNat ≤ 32 ∨ 133 ≤ c.toNat := Text.isBlank_bounds (by simpa using hb)
  have near : 48 ≤ c.toNat ∧ c.toNat ≤ 122 := by
    rcases h with h | h | h | rfl
    · have bounds : 65 ≤ c.toNat ∧ c.toNat ≤ 90 := Text.toNat_bounds h
      omega
    · have bounds : 97 ≤ c.toNat ∧ c.toNat ≤ 122 := Text.toNat_bounds h
      omega
    · have bounds : 48 ≤ c.toNat ∧ c.toNat ≤ 57 := Text.toNat_bounds h
      omega
    · decide
  omega

theorem IsIdentifier.first {n : String} (h : IsIdentifier n) (r : List Char) :
    ∀ c ∈ (n.toList ++ r).head?, Text.isBlank c = false := by
  obtain ⟨c, cs, hcs⟩ := List.exists_cons_of_ne_nil fun he => h.1 (String.toList_eq_nil_iff.1 he)
  rw [hcs]
  rintro _ ⟨⟩
  exact (h.2 c (by simp [hcs])).notBlank

theorem Iteration.read?_eq_some_iff {limit : PathLimit} {s : String} {i : Iteration} :
    Iteration.read? limit s = some i ↔ ∃ before between : String, (∀ c ∈ before.toList, Text.isBlank c) ∧
      (∀ c ∈ between.toList, Text.isBlank c) ∧ s = before ++ i.variableName ++ ":" ++ between ++ i.source.text ∧
      IsIdentifier i.variableName ∧ i.source.HasIdentifiers ∧ i.source.CallsLast ∧ limit.Holds i.source := by
  have readable : Grammar.Readable true i.source.segments ↔
      (∀ x ∈ i.source.segments, IsIdentifier x.name) ∧ i.source.CallsLast :=
    ⟨fun h => ⟨h.1, h.2.1⟩, fun h => ⟨h.1, h.2, nofun⟩⟩
  have toList : ∀ before between : String,
      s = before ++ i.variableName ++ ":" ++ between ++ i.source.text ↔
        s.toList = before.toList ++ (i.variableName.toList ++ (':' :: (between.toList ++ i.source.text.toList))) := by
    intro before between
    rw [← String.toList_inj]
    simp
  simp only [toList]
  constructor
  · intro h
    simp only [read?, Option.bind_eq_bind, Option.bind_eq_some_iff, Prod.exists] at h
    obtain ⟨v, r, hv, r', hcolon, source, hsource, hlimit⟩ := h
    split at hlimit
    · next hallows =>
      obtain rfl := Option.some.inj hlimit
      obtain ⟨hs, hname, -⟩ := Grammar.name?_eq_some_iff.1 hv
      obtain rfl := Grammar.after?_eq_some_iff.1 hcolon
      obtain ⟨htext, hroot, hreadable⟩ := Grammar.path?_eq_some_iff.1 hsource
      obtain ⟨before, hbefore, split⟩ := Text.exists_trimStart s.toList
      obtain ⟨between, hbetween, split'⟩ := Text.exists_trimStart r'
      refine ⟨.ofList before, .ofList between, by simpa using hbefore, by simpa using hbetween, ?_, hname,
        ⟨hroot, (readable.1 hreadable).1⟩, (readable.1 hreadable).2, PathLimit.allows_iff.1 hallows⟩
      rw [split, hs, split', htext]
      simp
    · cases hlimit
  · rintro ⟨before, between, hbefore, hbetween, hs, hname, hnames, hcalls, hlimit⟩
    have first : Text.trimStart s.toList = i.variableName.toList ++ ':' :: (between.toList ++ i.source.text.toList) := by
      rw [hs]
      exact Text.trimStart_append hbefore (hname.first _)
    have name : Grammar.name? (i.variableName.toList ++ ':' :: (between.toList ++ i.source.text.toList)) =
        some (i.variableName, ':' :: (between.toList ++ i.source.text.toList)) :=
      Grammar.name?_eq_some_iff.2 ⟨rfl, hname, by rintro _ ⟨⟩; decide⟩
    have second : Text.trimStart (between.toList ++ i.source.text.toList) = i.source.text.toList := by
      refine Text.trimStart_append hbetween ?_
      rw [Grammar.toList_text]
      rintro _ ⟨⟩
      decide
    have source : Grammar.path? true i.source.text.toList = some i.source :=
      Grammar.path?_eq_some_iff.2 ⟨rfl, hnames.1, readable.2 ⟨hnames.2, hcalls⟩⟩
    have allowed : limit.allows i.source = true := PathLimit.allows_iff.2 hlimit
    simp [read?, first, name, Grammar.after?, second, source, allowed]

/-- The text is the word, each letter of which may be a capital. -/
def Spells (word text : String) : Prop :=
  List.Forall₂ (fun letter c => c = letter ∨ c = letter.toUpper) word.toList text.toList

theorem spells_iff {word text : String} (h : ∀ c ∈ word.toList, 'a' ≤ c ∧ c ≤ 'z') :
    Spells word text ↔ text.toList.map Char.toLower = word.toList := by
  unfold Spells
  generalize word.toList = letters at h
  generalize text.toList = cs
  induction letters generalizing cs with
  | nil => cases cs <;> simp
  | cons letter letters ih =>
    cases cs with
    | nil => simp
    | cons c cs =>
      rw [List.forall₂_cons, ih fun x hx => h x (List.mem_cons_of_mem _ hx), List.map_cons, List.cons.injEq,
        Text.toLower_eq_iff (h letter List.mem_cons_self)]

/-- A path is no word: it begins with a dollar. -/
theorem Path.not_spells {limit : PathLimit} {s : String} {p : Path} (h : Path.read? limit s = some p) {word : String}
    (hword : ∀ c ∈ word.toList, 'a' ≤ c ∧ c ≤ 'z') : ¬ Spells word s := by
  obtain ⟨rfl, -⟩ := Path.read?_eq_some_iff.1 h
  rw [spells_iff hword, Grammar.toList_text]
  intro hs
  have first : '$' ∈ word.toList := by rw [← hs]; exact List.mem_cons_self
  exact absurd (hword _ first) (by decide)

/-- A condition is read from one of the words for the literals, or from a path. -/
theorem Condition.read?_eq_some_iff {limit : PathLimit} {s : String} {c : Condition} :
    Condition.read? limit s = some c ↔ (c = .literal true ∧ Spells "true" s) ∨
      (c = .literal false ∧ Spells "false" s) ∨ ∃ p, c = .path p ∧ Path.read? limit s = some p := by
  have letters : (∀ c ∈ "true".toList, 'a' ≤ c ∧ c ≤ 'z') ∧ ∀ c ∈ "false".toList, 'a' ≤ c ∧ c ≤ 'z' := by simp
  have paths : ∀ p, Path.read? limit s = some p → ¬ Spells "true" s ∧ ¬ Spells "false" s :=
    fun p hp => ⟨Path.not_spells hp letters.1, Path.not_spells hp letters.2⟩
  have distinct : Spells "true" s → ¬ Spells "false" s := by
    rw [spells_iff letters.1, spells_iff letters.2]
    intro h h'
    exact absurd (h.symm.trans h') (by decide)
  unfold read?
  by_cases htrue : Spells "true" s
  · have notPath : ∀ p, Path.read? limit s ≠ some p := fun p hp => (paths p hp).1 htrue
    rw [if_pos ((spells_iff letters.1).1 htrue)]
    simp [htrue, distinct htrue, notPath, eq_comm]
  · rw [if_neg fun h => htrue ((spells_iff letters.1).2 h)]
    by_cases hfalse : Spells "false" s
    · have notPath : ∀ p, Path.read? limit s ≠ some p := fun p hp => (paths p hp).2 hfalse
      rw [if_pos ((spells_iff letters.2).1 hfalse)]
      simp [htrue, hfalse, notPath, eq_comm]
    · rw [if_neg fun h => hfalse ((spells_iff letters.2).2 h), Option.map_eq_some_iff]
      simp [htrue, hfalse, eq_comm, and_comm]

end Stencil
