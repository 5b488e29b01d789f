import Stencil.Proofs.Markup.Print

/-! Trees written out. Tidying a tree tidies what it is written out to, and lists of kinds of tokens in which texts
are neither empty nor adjacent are told apart by their symbols, that is by the characters and tags in them. -/

namespace Stencil.Markup

/-! ### Tidying -/

/-- Puts text before kinds of tokens, and joins it to the text that they begin with. -/
def joinTextKind (s : String) : List TokenKind → List TokenKind
  | .text t :: ks => .text (s ++ t) :: ks
  | ks => .text s :: ks

def joinKind (s : String) (ks : List TokenKind) : List TokenKind := if s = "" then ks else joinTextKind s ks

/-- What `tidy` does to what a tree is written out to. -/
def tidyKinds : List TokenKind → List TokenKind
  | [] => []
  | .text s :: ks => joinKind (String.ofList (Text.trim s.toList)) (tidyKinds ks)
  | k :: ks => k :: tidyKinds ks

def TokenKind.isText : TokenKind → Bool
  | .text _ => true
  | _ => false

theorem tidyKinds_cons {k : TokenKind} (h : k.isText = false) (ks : List TokenKind) :
    tidyKinds (k :: ks) = k :: tidyKinds ks := by
  cases k with
  | text s => exact Bool.noConfusion h
  | startTag name attrs selfClosing => rfl
  | endTag name => rfl
  | eof => rfl

theorem joinKind_append (s : String) {k : TokenKind} (h : k.isText = false) (as bs : List TokenKind) :
    joinKind s (as ++ k :: bs) = joinKind s as ++ k :: bs := by
  unfold joinKind
  split
  · rfl
  · cases as with
    | nil => cases k with
      | text t => exact Bool.noConfusion h
      | _ => rfl
    | cons a as => cases a <;> rfl

theorem tidyKinds_append {k : TokenKind} (h : k.isText = false) (as bs : List TokenKind) :
    tidyKinds (as ++ k :: bs) = tidyKinds as ++ k :: tidyKinds bs := by
  induction as with
  | nil => exact tidyKinds_cons h bs
  | cons a as ih =>
    by_cases ha : a.isText
    · cases a with
      | text s => rw [List.cons_append, tidyKinds, tidyKinds, ih, joinKind_append _ h]
      | _ => exact Bool.noConfusion ha
    · have ha := Bool.eq_false_iff.2 ha
      rw [List.cons_append, tidyKinds_cons ha, tidyKinds_cons ha, ih, List.cons_append]

theorem kinds_joinOnto_text (s : String) (ns : List Node) : kinds (joinOnto (.text s) ns) = joinKind s (kinds ns) := by
  by_cases h : s = ""
  · simp [joinOnto, joinKind, h]
  · rw [joinOnto, if_neg h, joinKind, if_neg h]
    cases ns with
    | nil => rfl
    | cons n ns =>
      cases n with
      | text t => rfl
      | element e children => cases hc : e.closing <;> simp [joinText, joinTextKind, kinds, Node.kinds, hc]

/-- Nodes tidied up are written out to their kinds tidied up. -/
theorem kinds_tidy (ns : List Node) : kinds (tidy ns) = tidyKinds (kinds ns) := by
  induction ns using nodes_induction with
  | nil => rfl
  | text s ns ih =>
    rw [tidy, Node.tidy, kinds_joinOnto_text, ih, kinds, Node.kinds]
    rfl
  | element e children ns ihc ih =>
    rw [tidy, Node.tidy, joinOnto, kinds, kinds, Node.kinds, Node.kinds, ih]
    cases e.closing with
    | endTag =>
      simp only [List.cons_append, List.append_assoc, List.nil_append]
      rw [tidyKinds_cons rfl, tidyKinds_append rfl, ihc]
    | selfClosing => rfl
    | void => rfl

/-- Texts are trimmed, and neither empty nor adjacent. -/
def IsTidy : List TokenKind → Prop
  | [] => True
  | .text s :: ks => (s ≠ "" ∧ Text.IsTrimmed s.toList ∧ ∀ k ∈ ks.head?, k.isText = false) ∧ IsTidy ks
  | _ :: ks => IsTidy ks

theorem isTidy_joinKind {s : String} (hs : Text.IsTrimmed s.toList) {ks : List TokenKind} (h : IsTidy ks) :
    IsTidy (joinKind s ks) := by
  unfold joinKind
  split
  · exact h
  · next hne =>
    cases ks with
    | nil => exact ⟨⟨hne, hs, by simp⟩, trivial⟩
    | cons k ks =>
      cases k with
      | text t =>
        obtain ⟨⟨ht, htrim, hnext⟩, hks⟩ := h
        refine ⟨⟨by simp [hne], ?_, hnext⟩, hks⟩
        rw [String.toList_append]
        exact hs.append htrim (by simpa using hne) (by simpa using ht)
      | _ => exact ⟨⟨hne, hs, by rintro _ ⟨⟩; rfl⟩, h⟩

theorem isTidy_tidyKinds (ks : List TokenKind) : IsTidy (tidyKinds ks) := by
  induction ks with
  | nil => trivial
  | cons k ks ih =>
    cases k with
    | text s => exact isTidy_joinKind (by simpa using Text.isTrimmed_trim s.toList) ih
    | _ => exact ih

theorem tidyKinds_of_isTidy {ks : List TokenKind} (h : IsTidy ks) : tidyKinds ks = ks := by
  induction ks with
  | nil => rfl
  | cons k ks ih =>
    cases k with
    | text s =>
      obtain ⟨⟨hne, htrim, hnext⟩, hks⟩ := h
      rw [tidyKinds, ih hks, htrim.trim_eq, String.ofList_toList, joinKind, if_neg hne]
      cases ks with
      | nil => rfl
      | cons k ks =>
        cases k with
        | text t => exact Bool.noConfusion (hnext _ rfl)
        | _ => rfl
    | _ => rw [tidyKinds_cons rfl, ih h]

/-- A tree that is tidied up prints as it is when it is tidied up again. -/
theorem print_tidy_tidy (ns : List Node) : print (tidy (tidy ns)) = print (tidy ns) := by
  rw [print, kinds_tidy, kinds_tidy, tidyKinds_of_isTidy (isTidy_tidyKinds _), print, kinds_tidy]

/-! ### Symbols -/

/-- A character of a text, or any other kind of token. -/
inductive Symbol
  | char (c : Char)
  | tag (k : TokenKind)
  deriving DecidableEq

def chars (cs : List Char) : List Symbol := cs.map .char

def TokenKind.symbols : TokenKind → List Symbol
  | .text s => chars s.toList
  | k => [.tag k]

def symbols (ks : List TokenKind) : List Symbol := ks.flatMap TokenKind.symbols

/-- Texts are neither empty nor adjacent. -/
def IsNormal : List TokenKind → Prop
  | [] => True
  | .text s :: ks => (s ≠ "" ∧ ∀ k ∈ ks.head?, k.isText = false) ∧ IsNormal ks
  | _ :: ks => IsNormal ks

theorem IsNormal.tail {k : TokenKind} {ks : List TokenKind} (h : IsNormal (k :: ks)) : IsNormal ks := by
  cases k with
  | text s => exact h.2
  | _ => exact h

theorem IsTidy.isNormal {ks : List TokenKind} (h : IsTidy ks) : IsNormal ks := by
  induction ks with
  | nil => trivial
  | cons k ks ih =>
    cases k with
    | text s => exact ⟨⟨h.1.1, h.1.2.2⟩, ih h.2⟩
    | _ => exact ih h

/-- Symbols do not begin with a character. -/
def EndsText (ss : List Symbol) : Prop := ∀ c, ss.head? ≠ some (.char c)

theorem endsText_symbols {ks : List TokenKind} (h : ∀ k ∈ ks.head?, k.isText = false) : EndsText (symbols ks) := by
  cases ks with
  | nil => exact nofun
  | cons k ks =>
    cases k with
    | text s => exact Bool.noConfusion (h _ rfl)
    | _ => exact nofun

theorem chars_append_inj {as bs : List Char} {ss ts : List Symbol} (hs : EndsText ss) (ht : EndsText ts)
    (h : chars as ++ ss = chars bs ++ ts) : as = bs ∧ ss = ts := by
  induction as generalizing bs with
  | nil =>
    cases bs with
    | nil => exact ⟨rfl, h⟩
    | cons b bs => exact absurd (by rw [show ss = chars (b :: bs) ++ ts from h]; rfl) (hs b)
  | cons a as ih =>
    cases bs with
    | nil => exact absurd (by rw [← show chars (a :: as) ++ ss = ts from h]; rfl) (ht a)
    | cons b bs =>
      obtain ⟨hab, h⟩ := List.cons.inj h
      obtain ⟨rfl, rfl⟩ := ih h
      exact ⟨by rw [Symbol.char.inj hab], rfl⟩

theorem symbols_text (s : String) (ks : List TokenKind) : symbols (.text s :: ks) = chars s.toList ++ symbols ks := rfl

theorem symbols_tag {k : TokenKind} (h : k.isText = false) (ks : List TokenKind) :
    symbols (k :: ks) = .tag k :: symbols ks := by
  cases k with
  | text s => exact Bool.noConfusion h
  | _ => rfl

theorem not_endsText_text {s : String} (h : s ≠ "") (ks : List TokenKind) : ¬ EndsText (symbols (.text s :: ks)) := by
  obtain ⟨c, cs, hc⟩ := List.exists_cons_of_ne_nil (show s.toList ≠ [] by simpa using h)
  intro ends
  apply ends c
  rw [symbols_text, hc]
  rfl

theorem symbols_inj {ks ls : List TokenKind} (hk : IsNormal ks) (hl : IsNormal ls) (h : symbols ks = symbols ls) :
    ks = ls := by
  induction ks generalizing ls with
  | nil =>
    have ends : EndsText (symbols ls) := h ▸ nofun
    cases ls with
    | nil => rfl
    | cons l ls =>
      cases l with
      | text t => exact absurd ends (not_endsText_text hl.1.1 ls)
      | _ => cases h
  | cons k ks ih =>
    by_cases htext : k.isText
    · cases k with
      | text s =>
        have notEnds : ¬ EndsText (symbols ls) := h ▸ not_endsText_text hk.1.1 ks
        cases ls with
        | nil => exact absurd nofun notEnds
        | cons l ls =>
          cases l with
          | text t =>
            -- both texts end at the same place, as no text follows either
            obtain ⟨hst, h⟩ := chars_append_inj (endsText_symbols hk.1.2) (endsText_symbols hl.1.2) h
            rw [String.toList_inj.1 hst, ih hk.2 hl.2 h]
          | _ => exact absurd nofun notEnds
      | _ => exact Bool.noConfusion htext
    · have htag := Bool.eq_false_iff.2 htext
      rw [symbols_tag htag] at h
      have ends : EndsText (symbols ls) := h ▸ nofun
      cases ls with
      | nil => cases h
      | cons l ls =>
        by_cases hltext : l.isText
        · cases l with
          | text t => exact absurd ends (not_endsText_text hl.1.1 ls)
          | _ => exact Bool.noConfusion hltext
        · rw [symbols_tag (Bool.eq_false_iff.2 hltext)] at h
          obtain ⟨hkl, htails⟩ := List.cons.inj h
          obtain rfl := Symbol.tag.inj hkl
          rw [ih hk.tail hl.tail htails]

end Stencil.Markup
