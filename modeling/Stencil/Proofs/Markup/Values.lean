import Stencil.Proofs.Markup.InStep

/-! The values of attributes in tokens. Every token of a start tag has the names that were read, each once, and a value is
as it was read unless it is lost; as far as a source is read without traps, none is lost that is not empty. -/

namespace Stencil.Markup

/-- A token has the attributes of its tag, each once and with its value, where no value counts as an empty one. -/
inductive ValuesKept : Event → Token → Prop
  | startTag {place : Nat} {name : List Char} {attrs : List (List Char × List Char)} {as : List (String × Option String)}
    (selfClosing : Bool) (position : Position) (nodup : (as.map Prod.fst).Nodup)
    (kept : (as.map fun a => (a.1, a.2.getD "")).Perm (attrs.map fun a => (String.ofList a.1, String.ofList a.2))) :
    ValuesKept (.startTag place name attrs selfClosing) ⟨.startTag (String.ofList name) as selfClosing, position⟩
  | endTag {place : Nat} (name : List Char) (position : Position) :
    ValuesKept (.endTag place name) ⟨.endTag (String.ofList name), position⟩

theorem Faithful.valuesKept {source : List Char} {e : Event} {t : Token} (h : Faithful source e t) : ValuesKept e t := by
  cases h with
  | startTag selfClosing begins nodup kept => exact .startTag selfClosing _ nodup (.of_eq kept)
  | endTag name begins => exact .endTag name _

/-- Of every source the tokens of tags have the names of their attributes, and a value is lost exactly where the text at
the token declares the attribute first without one. As far as a source is read without traps, all values are kept. -/
theorem attrs_kept (source : String) :
    List.Forall₂ (Represents source.toList) ((events source.toList).filter Event.isTag)
        ((tokens source).filter Token.isTag) ∧
      ∀ read, read <+: source.toList → Reader.start.isSmooth read →
        ∃ ts, ts <+: (tokens source).filter Token.isTag ∧
          List.Forall₂ ValuesKept ((Reader.start.run read).2.filter Event.isTag) ts := by
  refine ⟨?_, fun read hread smooth => ?_⟩
  · rw [filter_tokens]
    exact forall₂_represents (lawfulEvents_events source.toList) (within_ofSource source.toList)
  · obtain ⟨ts, hts, faithful⟩ := faithful_tokens source hread smooth
    exact ⟨ts, hts, faithful.imp fun _ _ => Faithful.valuesKept⟩

theorem attrs_kept_form :
    let source := "<form Action='/a?b=1&amp;c' novalidate=\"\">\n<input type=text VALUE=\"a > b\" value=c disabled/></form></ x>"
    let read := source.toList.take 99
    let tags : List Event := [
      .startTag 0 "form".toList [("action".toList, "/a?b=1&c".toList), ("novalidate".toList, [])] false,
      .startTag 43 "input".toList
        [("type".toList, "text".toList), ("value".toList, "a > b".toList), ("disabled".toList, [])] true,
      .endTag 92 "form".toList]
    read <+: source.toList ∧ Reader.start.isSmooth read = true ∧
      ∃ ts, ts <+: (tokens source).filter Token.isTag ∧ List.Forall₂ ValuesKept tags ts := by
  intro source read tags
  have hread : read <+: source.toList := List.take_prefix _ _
  have smooth : Reader.start.isSmooth read = true := by decide +kernel
  have htags : (Reader.start.run read).2.filter Event.isTag = tags := by decide +kernel
  exact ⟨hread, smooth, htags ▸ (attrs_kept source).2 read hread smooth⟩

/-- The reader ends an unquoted value at blanks of HTML only, and the scan of attributes at a no-break space too. What
follows there is declared without a value, and takes the one that is declared later. -/
theorem not_valuesKept_noBreakSpace : ¬ List.Forall₂ ValuesKept
    ((events "<p a=b\u00a0c c=x>".toList).filter Event.isTag) ((tokens "<p a=b\u00a0c c=x>").filter Token.isTag) := by
  have read : events "<p a=b\u00a0c c=x>".toList =
      [.startTag 0 ['p'] [(['a'], ['b', '\u00a0', 'c']), (['c'], ['x'])] false] := by decide +kernel
  have placed : Follower.placeStart (.ofSource "<p a=b\u00a0c c=x>".toList) ['p'] =
      (⟨1, 1⟩, [(['a'], true), (['c'], false), (['c'], true)], ⟨[], ⟨1, 14⟩⟩) := by decide +kernel
  have sorted : Follower.sortAttrs [(['a'], ['b', '\u00a0', 'c']), (['c'], ['x'])] =
      [(['a'], ['b', '\u00a0', 'c']), (['c'], ['x'])] := List.mergeSort_of_pairwise (by decide +kernel)
  have token : (tokens "<p a=b\u00a0c c=x>").filter Token.isTag =
      [⟨.startTag "p" [("a", some "b\u00a0c"), ("c", none)] false, ⟨1, 1⟩⟩] := by
    rw [filter_tokens, read, Cursor.tokens, Cursor.token?, placed, ordered, sorted]
    decide +kernel
  rw [read, token]
  intro h
  obtain ⟨kept, -⟩ := List.forall₂_cons.1 h
  generalize ht : (Token.mk (.startTag "p" [("a", some "b\u00a0c"), ("c", none)] false) ⟨1, 1⟩) = t at kept
  cases kept with
  | startTag selfClosing position nodup kept =>
    obtain ⟨-, rfl, -⟩ := TokenKind.startTag.inj (congrArg Token.kind ht)
    exact absurd kept (by decide +kernel)

end Stencil.Markup
