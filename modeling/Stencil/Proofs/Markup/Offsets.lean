import Stencil.Proofs.Directive.Octets
import Stencil.Proofs.Markup.Searching
import Stencil.Proofs.Markup.TagTokens

/-! The searches of the cursor with offsets in octets. Each of them takes slices of the source, and there is no slice where
one would reach over the end or cut a character. At an offset where a part of the source ends all of them succeed, and
find what the searches on the text that is left find. -/

namespace Stencil.Markup.Offsets

open Octets (size cut? size_append size_cons cut?_append)

/-- The text from an offset on, unless a character is cut there or the text has less octets. -/
def from? (s : List Char) (n : Nat) : Option (List Char) := (cut? s n).map Prod.snd

/-- The offsets where a word comes in a text that has the offset `i`. -/
def occurrences (word : List Char) (i : Nat) : List Char → List Nat
  | [] => []
  | c :: cs =>
    if word.isPrefixOf (c :: cs) then i :: occurrences word (i + c.utf8Size) cs
    else occurrences word (i + c.utf8Size) cs

def find? (word s : List Char) : Option Nat := (occurrences word 0 s).head?

/-- Whether a text begins with a name, letters of ASCII being equal in either case, and the name ends there. -/
def beginsName (name s : List Char) : Bool :=
  match cut? s (size name) with
  | some (candidate, tail) => candidate.map Char.toLower = name.map Char.toLower && endsTagName tail
  | none => false

/-- Whether the name of a tag comes in a text after what opens the tag at an offset. -/
def hasNameAt (rest opening name : List Char) (i : Nat) : Option Bool := do
  let after ← from? rest (i + size opening)
  return beginsName name after

def locate (source opening name : List Char) (offset : Nat) : Option (Option Nat) := do
  let rest ← from? source offset
  let found ← (occurrences opening 0 rest).findM? (hasNameAt rest opening name)
  return found.map (offset + ·)

def declarationEnd (source : List Char) (offset : Nat) : Option (Option Nat) := do
  let rest ← from? source offset
  match ((find? ['<', '!'] rest).toList ++ (find? ['<', '?'] rest).toList).min? with
  | none => return none
  | some start =>
    let here ← from? rest start
    let stop ←
      if ['<', '!', '-', '-'].isPrefixOf here then do
        let inside ← from? rest (start + 4)
        pure ((find? ['-', '-', '>'] inside).map (start + 4 + · + 3))
      else pure ((find? ['>'] here).map (start + · + 1))
    return some (offset + stop.getD (size rest))

/-- The offset after the next `>`, or that of the end of the source. -/
def closeEnd (source : List Char) (start : Nat) : Option Nat := do
  let here ← from? source start
  return ((find? ['>'] here).map (start + · + 1)).getD (size source)

def scan (s : AttrScan) (i : Nat) : List Char → List Declared × Option Nat
  | [] => (s.finish, none)
  | c :: cs =>
    match s.step c with
    | (new, none) => (new, some (i + 1))
    | (new, some s) =>
      let (later, stop) := scan s (i + c.utf8Size) cs
      (new ++ later, stop)

/-- The attributes that are declared from an offset on, and the offset after the tag. From an offset that is none, nothing is
declared up to the end of the source. -/
def declaredFrom (source : List Char) (offset : Nat) : List Declared × Nat :=
  match from? source offset with
  | none => ([], size source)
  | some rest =>
    let (declared, stop) := scan .between 0 rest
    (declared, (stop.map (offset + ·)).getD (size source))

/-! ### Offsets of what is left -/

theorem size_concat (s : List Char) (c : Char) : size (s ++ [c]) = size s + c.utf8Size := by
  rw [size_append, size_cons]
  rfl

def offsetOf (s rest : List Char) : Nat := size s - size rest

theorem offsetOf_append (before rest : List Char) : offsetOf (before ++ rest) rest = size before := by
  rw [offsetOf, size_append, Nat.add_sub_cancel]

theorem offsetOf_nil (s : List Char) : offsetOf s [] = size s := rfl

theorem offsetOf_trans {s t r : List Char} (ht : t <:+ s) (hr : r <:+ t) : offsetOf s r = offsetOf s t + offsetOf t r := by
  obtain ⟨before, rfl⟩ := ht
  obtain ⟨gap, rfl⟩ := hr
  rw [offsetOf_append, offsetOf_append, ← List.append_assoc, offsetOf_append, size_append]

theorem from?_append (before rest : List Char) : from? (before ++ rest) (size before) = some rest := by
  rw [from?, cut?_append]
  rfl

theorem from?_offsetOf {s rest : List Char} (h : rest <:+ s) : from? s (offsetOf s rest) = some rest := by
  obtain ⟨before, rfl⟩ := h
  rw [offsetOf_append, from?_append]

/-! ### Tags -/

theorem utf8Size_of_small {c : Char} (h : c.toNat ≤ 127) : c.utf8Size = 1 := by
  have small : c.val ≤ 0x7f := UInt32.le_iff_toNat_le.2 h
  exact if_pos small

theorem utf8Size_toLower (c : Char) : c.toLower.utf8Size = c.utf8Size := by
  rcases Text.toLower_cases c with ⟨h, -⟩ | ⟨h1, h2, h3⟩
  · rw [h]
  · rw [utf8Size_of_small (by omega), utf8Size_of_small (by omega)]

theorem size_of_toLower {s t : List Char} (h : s.map Char.toLower = t.map Char.toLower) : size s = size t := by
  have lowered : ∀ s : List Char, size (s.map Char.toLower) = size s := by
    intro s
    induction s with
    | nil => rfl
    | cons c s ih => rw [List.map_cons, size_cons, size_cons, utf8Size_toLower, ih]
  rw [← lowered s, h, lowered]

/-- What follows a name is what is left without as many characters, which are the name in either case. -/
theorem afterName?_eq_some_iff {name s rest : List Char} :
    afterName? name s = some rest ↔ ∃ written, s = written ++ rest ∧ written.map Char.toLower = name.map Char.toLower := by
  constructor
  · intro h
    fun_induction afterName? name s with
    | case1 s => exact ⟨[], by rw [Option.some.inj h]; rfl, rfl⟩
    | case2 n ns c cs heq ih =>
      obtain ⟨written, rfl, hwritten⟩ := ih h
      exact ⟨c :: written, rfl, by rw [List.map_cons, List.map_cons, heq, hwritten]⟩
    | case3 => cases h
    | case4 => cases h
  · rintro ⟨written, rfl, hwritten⟩
    exact afterName?_append hwritten.symm rest

theorem of_cut? {s a b : List Char} {n : Nat} (h : cut? s n = some (a, b)) : s = a ++ b ∧ size a = n := by
  induction s generalizing a n with
  | nil =>
    cases n with
    | zero =>
      obtain ⟨rfl, rfl⟩ := Prod.mk.inj (Option.some.inj h)
      exact ⟨rfl, rfl⟩
    | succ n => cases h
  | cons c s ih =>
    cases n with
    | zero =>
      obtain ⟨rfl, rfl⟩ := Prod.mk.inj (Option.some.inj h)
      exact ⟨rfl, rfl⟩
    | succ n =>
      unfold cut? at h
      split at h
      · next hc =>
        obtain ⟨⟨a', b'⟩, hcut, heq⟩ := Option.map_eq_some_iff.1 h
        obtain ⟨rfl, rfl⟩ := Prod.mk.inj heq
        obtain ⟨rfl, hsize⟩ := ih hcut
        refine ⟨rfl, ?_⟩
        rw [size_cons]
        omega
      · cases h

theorem beginsName_iff {name s : List Char} : beginsName name s = true ↔
    ∃ written rest, s = written ++ rest ∧ written.map Char.toLower = name.map Char.toLower ∧ endsTagName rest := by
  unfold beginsName
  constructor
  · intro h
    split at h
    · next candidate tail hcut =>
      obtain ⟨hname, hends⟩ := Bool.and_eq_true_iff.1 h
      exact ⟨candidate, tail, (of_cut? hcut).1, of_decide_eq_true hname, hends⟩
    · cases h
  · rintro ⟨written, rest, rfl, hname, hends⟩
    rw [← size_of_toLower hname, cut?_append]
    simpa [hname] using hends

def AreSigns (opening : List Char) : Prop := ∀ o ∈ opening, o.toLower = o ∧ o.toNat < 97

theorem afterName?_signs {opening : List Char} (h : AreSigns opening) (name s : List Char) :
    afterName? (opening ++ name) s = (Grammar.after? opening s).bind (afterName? name) := by
  induction opening generalizing s with
  | nil => rfl
  | cons o opening ih =>
    obtain ⟨hlower, hsmall⟩ := h o List.mem_cons_self
    have later := fun s => ih (fun o ho => h o (List.mem_cons_of_mem _ ho)) s
    cases s with
    | nil => rfl
    | cons c s =>
      have same : o.toLower = c.toLower ↔ o = c := by
        constructor
        · intro heq
          exact (Text.toLower_eq_of_small hsmall (heq.symm.trans hlower)).symm
        · intro heq
          rw [heq]
      rw [List.cons_append, afterName?, Grammar.after?, later]
      by_cases hoc : o = c
      · rw [if_pos (same.2 hoc), if_pos hoc]
      · rw [if_neg fun heq => hoc (same.1 heq), if_neg hoc]
        rfl

/-- A tag begins where the signs come and its name after them. -/
theorem afterTag?_isSome_iff {opening name s : List Char} (h : AreSigns opening) : (afterTag? opening name s).isSome ↔
    ∃ t, s = opening ++ t ∧ beginsName name t := by
  rw [Option.isSome_iff_exists]
  simp only [afterTag?, afterName?_signs h, Option.filter_eq_some_iff, Option.bind_eq_some_iff, Grammar.after?_eq_some_iff,
    afterName?_eq_some_iff, beginsName_iff]
  constructor
  · rintro ⟨rest, ⟨t, hs, written, ht, hname⟩, hends⟩
    exact ⟨t, hs, written, rest, ht, hname, hends⟩
  · rintro ⟨t, hs, written, rest, ht, hname, hends⟩
    exact ⟨rest, ⟨t, hs, written, ht, hname⟩, hends⟩

theorem locate_cons {opening name cs : List Char} {c : Char} (h : ¬ (afterTag? opening name (c :: cs)).isSome) :
    Markup.locate opening name (c :: cs) = Markup.locate opening name cs := by
  rw [Markup.locate, Option.not_isSome_iff_eq_none.1 h]

theorem areSigns_start : AreSigns ['<'] := forall_mem_of_all (by decide)

theorem areSigns_end : AreSigns ['<', '/'] := forall_mem_of_all (by decide)

theorem parts_of_locate {opening name s tag after : List Char} (h : AreSigns opening)
    (hl : Markup.locate opening name s = some (tag, after)) :
    ∃ written, tag = opening ++ written ++ after ∧ written.map Char.toLower = name.map Char.toLower ∧ endsTagName after := by
  obtain ⟨hname, hends⟩ := Option.filter_eq_some_iff.1 (locate_some hl)
  rw [afterName?_signs h] at hname
  obtain ⟨t, ht, hname⟩ := Option.bind_eq_some_iff.1 hname
  obtain ⟨written, rfl, hwritten⟩ := afterName?_eq_some_iff.1 hname
  exact ⟨written, by rw [Grammar.after?_eq_some_iff.1 ht, List.append_assoc], hwritten, hends⟩

theorem hasNameAt_append (before opening name after : List Char) :
    hasNameAt (before ++ opening ++ after) opening name (size before) = some (beginsName name after) := by
  rw [hasNameAt, ← size_append, from?_append]
  rfl

theorem findM?_cons {α : Type} (p : α → Option Bool) (x : α) (xs : List α) {b : Bool} (h : p x = some b) :
    (x :: xs).findM? p = if b then some (some x) else xs.findM? p := by
  cases b <;> simp [List.findM?, h]

theorem findM?_occurrences {opening : List Char} (h : AreSigns opening) (name : List Char) {rest before s : List Char}
    (hrest : rest = before ++ s) : (occurrences opening (size before) s).findM? (hasNameAt rest opening name) =
      some ((Markup.locate opening name s).map fun found => offsetOf rest found.1) := by
  induction s generalizing before with
  | nil => rfl
  | cons c cs ih =>
    have later := ih (hrest.trans (List.append_cons before c cs))
    rw [size_concat] at later
    by_cases htag : (afterTag? opening name (c :: cs)).isSome
    · obtain ⟨t, ht, hname⟩ := (afterTag?_isSome_iff h).1 htag
      obtain ⟨after, hafter⟩ := Option.isSome_iff_exists.1 htag
      have here : hasNameAt rest opening name (size before) = some true := by
        rw [hrest, ht, ← List.append_assoc, hasNameAt_append, hname]
      have opens : opening.isPrefixOf (c :: cs) := by
        rw [List.isPrefixOf_iff_prefix, ht]
        exact List.prefix_append opening t
      rw [occurrences, if_pos opens, findM?_cons _ _ _ here, Markup.locate, hafter, hrest]
      simp [offsetOf_append]
    · rw [locate_cons htag, occurrences]
      split
      · next opens =>
        obtain ⟨t, ht⟩ := List.isPrefixOf_iff_prefix.1 opens
        have here : hasNameAt rest opening name (size before) = some false := by
          rw [hrest, ← ht, ← List.append_assoc, hasNameAt_append]
          have other : ¬ beginsName name t = true := fun hname => htag ((afterTag?_isSome_iff h).2 ⟨t, ht.symm, hname⟩)
          rw [Bool.eq_false_iff.2 other]
        rw [findM?_cons _ _ _ here]
        exact later
      · exact later

/-- Where the source goes on with `rest`, the tag is found that is located in that. -/
theorem locate_at {source rest opening : List Char} (h : AreSigns opening) (hrest : rest <:+ source) (name : List Char) :
    locate source opening name (offsetOf source rest) =
      some ((Markup.locate opening name rest).map fun found => offsetOf source found.1) := by
  have found : (occurrences opening 0 rest).findM? (hasNameAt rest opening name) = _ :=
    findM?_occurrences h name (List.nil_append rest).symm
  rw [locate, from?_offsetOf hrest, Option.bind_eq_bind, Option.bind_some, found]
  cases hl : Markup.locate opening name rest with
  | none => rfl
  | some found =>
    have place := offsetOf_trans hrest (locate_suffix hl)
    exact congrArg (fun i => some (some i)) place.symm

/-! ### Ends of tags and declarations -/

/-- What `skip` leaves of a text is what follows a word where it first comes, and nothing if it does not come. -/
structure SkipsPast (word : List Char) (skip : List Char → List Char) : Prop where
  nil : skip [] = []
  found (rest : List Char) : skip (word ++ rest) = rest
  step (c : Char) (cs : List Char) : ¬ word <+: c :: cs → skip (c :: cs) = skip cs

theorem SkipsPast.head?_occurrences {word : List Char} {skip : List Char → List Char} (h : SkipsPast word skip)
    {s before rest : List Char} (hrest : rest = before ++ s) :
    (occurrences word (size before) s).head?.elim (size rest) (· + size word) = offsetOf rest (skip s) := by
  induction s generalizing before with
  | nil =>
    rw [h.nil]
    rfl
  | cons c cs ih =>
    rw [occurrences]
    split
    · next here =>
      obtain ⟨r, hr⟩ := List.isPrefixOf_iff_prefix.1 here
      rw [hrest, ← hr, h.found, ← List.append_assoc, offsetOf_append, size_append before word]
      rfl
    · next here =>
      rw [h.step c cs fun hprefix => here (List.isPrefixOf_iff_prefix.2 hprefix), ← size_concat]
      exact ih (hrest.trans (List.append_cons before c cs))

theorem SkipsPast.suffix {word : List Char} {skip : List Char → List Char} (h : SkipsPast word skip) (s : List Char) :
    skip s <:+ s := by
  induction s with
  | nil => simp [h.nil]
  | cons c cs ih =>
    by_cases here : word <+: c :: cs
    · obtain ⟨r, hr⟩ := here
      rw [← hr, h.found]
      exact List.suffix_append word r
    · rw [h.step c cs here]
      exact ih.trans (List.suffix_cons c cs)

/-- The offset after the word, where a text goes on with `inside`. -/
theorem SkipsPast.stop {word : List Char} {skip : List Char → List Char} (h : SkipsPast word skip) {s inside : List Char}
    (hinside : inside <:+ s) :
    ((find? word inside).map (offsetOf s inside + · + size word)).getD (size s) = offsetOf s (skip inside) := by
  have found : (find? word inside).elim (size inside) (· + size word) = _ :=
    h.head?_occurrences (List.nil_append inside).symm
  have whole := offsetOf_trans hinside (List.nil_suffix : [] <:+ inside)
  rw [offsetOf_nil, offsetOf_nil] at whole
  rw [offsetOf_trans hinside (h.suffix inside), ← found]
  cases find? word inside with
  | none => exact whole
  | some i => exact Nat.add_assoc _ _ _

theorem skipsPast_pastClose : SkipsPast ['>'] pastClose where
  nil := rfl
  found rest := pastClose_append List.not_mem_nil rest
  step _ cs h := DeclarationPart.pastClose_cons (fun hc => h (hc ▸ ⟨cs, rfl⟩)) cs

theorem skipsPast_pastCommentEnd : SkipsPast ['-', '-', '>'] pastCommentEnd where
  nil := rfl
  found rest := by rw [List.cons_append, List.cons_append, List.cons_append, pastCommentEnd, List.nil_append]
  step _ cs h := by
    apply pastCommentEnd.eq_2
    intro rest hc hcs
    exact h ⟨rest, by rw [hc, hcs]; rfl⟩

theorem closeEnd_at {source tag : List Char} (h : tag <:+ source) :
    closeEnd source (offsetOf source tag) = some (offsetOf source (pastClose tag)) := by
  rw [closeEnd, from?_offsetOf h, ← skipsPast_pastClose.stop h]
  rfl

theorem le_of_mem_occurrences {word s : List Char} {i j : Nat} (h : j ∈ occurrences word i s) : i ≤ j := by
  induction s generalizing i with
  | nil => cases h
  | cons c cs ih =>
    unfold occurrences at h
    split at h
    · rcases List.mem_cons.1 h with rfl | h
      · exact Nat.le_refl j
      · have later := ih h
        omega
    · have later := ih h
      omega

/-- The offset of the declaration that comes first in a text that has the offset `i`. -/
def declarationStart (i : Nat) (s : List Char) : Option Nat :=
  ((occurrences ['<', '!'] i s).head?.toList ++ (occurrences ['<', '?'] i s).head?.toList).min?

def Declares (s : List Char) : Prop := ['<', '!'] <+: s ∨ ['<', '?'] <+: s

theorem min?_toList {i : Nat} {o : Option Nat} (h : ∀ j ∈ o, i ≤ j) :
    ((some i).toList ++ o.toList).min? = some i ∧ (o.toList ++ (some i).toList).min? = some i := by
  cases o with
  | none => exact ⟨rfl, rfl⟩
  | some j =>
    have hle := h j rfl
    exact ⟨congrArg some (Nat.min_eq_left hle), congrArg some (Nat.min_eq_right hle)⟩

theorem declarationStart_of_declares {s : List Char} (h : Declares s) (i : Nat) : declarationStart i s = some i := by
  have least : ∀ word, ∀ j ∈ (occurrences word i s).head?, i ≤ j :=
    fun word j hj => le_of_mem_occurrences (List.mem_of_mem_head? hj)
  unfold declarationStart
  rcases h with ⟨r, rfl⟩ | ⟨r, rfl⟩
  · exact (min?_toList (least ['<', '?'])).1
  · exact (min?_toList (least ['<', '!'])).2

theorem declarationStart_cases (s : List Char) (i : Nat) :
    (declarationStart i s = none ∧ pastDeclaration? s = none) ∨
      ∃ gap here, s = gap ++ here ∧ Declares here ∧ declarationStart i s = some (i + size gap) ∧
        pastDeclaration? s = pastDeclaration? here := by
  induction s generalizing i with
  | nil => exact .inl ⟨rfl, rfl⟩
  | cons c cs ih =>
    by_cases here : Declares (c :: cs)
    · exact .inr ⟨[], c :: cs, rfl, here, declarationStart_of_declares here i, rfl⟩
    · obtain ⟨noBang, noQuestion⟩ := not_or.1 here
      have start : declarationStart i (c :: cs) = declarationStart (i + c.utf8Size) cs := by
        rw [declarationStart, occurrences, if_neg fun h => noBang (List.isPrefixOf_iff_prefix.1 h), occurrences,
          if_neg fun h => noQuestion (List.isPrefixOf_iff_prefix.1 h), declarationStart]
      have skipped : pastDeclaration? (c :: cs) = pastDeclaration? cs := by
        apply pastDeclaration?.eq_4
        · intro r hc hcs
          exact noBang ⟨'-' :: '-' :: r, by rw [hc, hcs]; rfl⟩
        · intro r hc hcs
          exact noBang ⟨r, by rw [hc, hcs]; rfl⟩
        · intro r hc hcs
          exact noQuestion ⟨r, by rw [hc, hcs]; rfl⟩
      rw [start, skipped]
      rcases ih (i + c.utf8Size) with none | ⟨gap, rest, rfl, hrest, hstart, hpast⟩
      · exact .inl none
      · refine .inr ⟨c :: gap, rest, rfl, hrest, ?_, hpast⟩
        rw [hstart, size_cons, Nat.add_assoc]

/-- A declaration that is no comment goes on to the next `>`. -/
theorem pastDeclaration?_of_declares {s : List Char} (h : Declares s) (noComment : ¬ ['<', '!', '-', '-'] <+: s) :
    pastDeclaration? s = some (pastClose s) := by
  have opened : ∀ c r, c ≠ '>' → pastClose ('<' :: c :: r) = pastClose r := fun c r hc => by
    rw [DeclarationPart.pastClose_cons (by decide), DeclarationPart.pastClose_cons hc]
  rcases h with ⟨r, rfl⟩ | ⟨r, rfl⟩
  · rw [List.cons_append, List.cons_append, List.nil_append, opened '!' r (by decide)]
    apply pastDeclaration?.eq_2
    rintro inside rfl
    exact noComment ⟨inside, rfl⟩
  · rw [List.cons_append, List.cons_append, List.nil_append, opened '?' r (by decide)]
    rfl

/-- Where the source goes on with `rest`, the end of the next declaration is found in that. -/
theorem declarationEnd_at {source rest : List Char} (h : rest <:+ source) :
    declarationEnd source (offsetOf source rest) = some ((pastDeclaration? rest).map (offsetOf source)) := by
  have start : ((find? ['<', '!'] rest).toList ++ (find? ['<', '?'] rest).toList).min? = declarationStart 0 rest := rfl
  rw [declarationEnd, from?_offsetOf h, Option.bind_eq_bind, Option.bind_some, start]
  rcases declarationStart_cases rest 0 with ⟨hnone, hpast⟩ | ⟨gap, here, hrest, declares, hstart, hpast⟩
  · rw [hnone, hpast]
    rfl
  · have inRest : here <:+ rest := ⟨gap, hrest.symm⟩
    have place : 0 + size gap = offsetOf rest here := by rw [hrest, offsetOf_append, Nat.zero_add]
    rw [hstart, hpast, place]
    dsimp only
    rw [from?_offsetOf inRest, Option.bind_eq_bind, Option.bind_some]
    by_cases comment : ['<', '!', '-', '-'] <+: here
    · obtain ⟨inside, rfl⟩ := comment
      have inHere : inside <:+ ['<', '!', '-', '-'] ++ inside := List.suffix_append _ _
      have inner : offsetOf rest (['<', '!', '-', '-'] ++ inside) + 4 = offsetOf rest inside := by
        rw [offsetOf_trans inRest inHere, offsetOf_append]
        rfl
      have comment : pastDeclaration? (['<', '!', '-', '-'] ++ inside) = some (pastCommentEnd inside) := rfl
      have stop := skipsPast_pastCommentEnd.stop (inHere.trans inRest)
      have whole := offsetOf_trans h ((pastCommentEnd_suffix inside).trans (inHere.trans inRest))
      rw [if_pos (List.isPrefixOf_iff_prefix.2 (List.prefix_append _ _)), inner, from?_offsetOf (inHere.trans inRest), comment]
      exact congrArg (fun n => some (some n)) (by rw [whole, ← stop]; rfl)
    · have stop := skipsPast_pastClose.stop inRest
      have whole := offsetOf_trans h ((pastClose_suffix here).trans inRest)
      rw [if_neg fun hcomment => comment (List.isPrefixOf_iff_prefix.1 hcomment),
        pastDeclaration?_of_declares declares comment]
      exact congrArg (fun n => some (some n)) (by rw [whole, ← stop]; rfl)

/-! ### Attributes -/

theorem close_of_step {s : AttrScan} {c : Char} {new : List Declared} (h : s.step c = (new, none)) : c = '>' := by
  cases s <;> grind [AttrScan.step, AttrScan.between?]

theorem scan_eq (s : AttrScan) {cs before rest : List Char} (hrest : rest = before ++ cs) :
    (scan s (size before) cs).1 = (s.run cs).1 ∧
      (scan s (size before) cs).2.getD (size rest) = offsetOf rest (s.run cs).2 := by
  induction cs generalizing s before with
  | nil => exact ⟨rfl, rfl⟩
  | cons c cs ih =>
    have hcs := hrest.trans (List.append_cons before c cs)
    cases hstep : s.step c with
    | mk new later =>
      cases later with
      | none =>
        obtain rfl := close_of_step hstep
        rw [scan, AttrScan.run, hstep]
        refine ⟨rfl, ?_⟩
        rw [hcs, offsetOf_append, size_concat]
        rfl
      | some s' =>
        obtain ⟨names, stop⟩ := ih s' hcs
        rw [scan, AttrScan.run, hstep, ← size_concat]
        exact ⟨congrArg (new ++ ·) names, stop⟩

/-- Where the source goes on with `after`, the attributes are scanned that are declared in that. -/
theorem declaredFrom_at {source after : List Char} (h : after <:+ source) :
    declaredFrom source (offsetOf source after) = ((declared after).1, offsetOf source (declared after).2) := by
  obtain ⟨names, stop⟩ := scan_eq .between (List.nil_append after).symm
  have zero : size ([] : List Char) = 0 := rfl
  have whole := offsetOf_trans h (AttrScan.run_suffix .between after)
  have all := offsetOf_trans h (List.nil_suffix : [] <:+ after)
  rw [offsetOf_nil, offsetOf_nil] at all
  rw [zero] at names stop
  rw [declaredFrom, from?_offsetOf h]
  refine Prod.ext names ?_
  rw [declared, whole, ← stop]
  dsimp only
  cases (scan .between 0 after).2 with
  | none => exact all
  | some i => rfl

end Stencil.Markup.Offsets
