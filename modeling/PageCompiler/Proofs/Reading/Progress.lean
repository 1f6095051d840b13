import PageCompiler.Proofs.Reading.Attributes
import Mathlib.Data.List.TakeWhile

namespace PageCompiler

open Text

namespace Cursor

-- The second cursor stands at or behind the first one, in the same text.
def Leads (c c' : Cursor) : Prop := ∃ n, c' = c.skip n

theorem skip_skip (c : Cursor) (m n : Nat) : (c.skip m).skip n = c.skip (m + n) := by
  simp only [skip, List.drop_drop, List.take_add, Mark.advance_append]

variable {c c' c'' : Cursor}

theorem Leads.refl (c : Cursor) : Leads c c := ⟨0, by simp [skip]⟩

theorem Leads.trans (h : Leads c c') (h' : Leads c' c'') : Leads c c'' := by
  obtain ⟨m, rfl⟩ := h
  obtain ⟨n, rfl⟩ := h'
  exact ⟨m + n, skip_skip c m n⟩

theorem Leads.unit_eq (h : Leads c c') : c'.mark.unit = c.mark.unit := by
  obtain ⟨n, rfl⟩ := h
  simp [skip]

theorem Leads.length_le (h : Leads c c') : c'.rest.length ≤ c.rest.length := by
  obtain ⟨n, rfl⟩ := h
  simp [skip]

theorem leads_skip (c : Cursor) (n : Nat) : Leads c (c.skip n) := ⟨n, rfl⟩

theorem leads_moveTo (c : Cursor) (tail : List Char) : Leads c (c.moveTo tail) := ⟨_, rfl⟩

theorem length_moveTo_le (c : Cursor) (tail : List Char) :
    (c.moveTo tail).rest.length ≤ tail.length := by
  simp only [moveTo, skip, List.length_drop]
  omega

-- A cursor that has passed over a piece of the text in front of it.
theorem leads_of_append {piece rest : List Char} (h : c.rest = piece ++ rest) :
    Leads c ⟨c.mark.advance piece, rest⟩ :=
  ⟨piece.length, by simp [skip, h]⟩

theorem append_skipBlanks (c : Cursor) : c.rest.takeWhile isBlank ++ c.skipBlanks.rest = c.rest :=
  List.takeWhile_append_dropWhile ..

theorem allBlank_takeWhile (s : List Char) : allBlank (s.takeWhile isBlank) :=
  List.all_takeWhile

theorem leads_skipBlanks (c : Cursor) : Leads c c.skipBlanks :=
  leads_of_append (append_skipBlanks c).symm

theorem append_accept? {piece : String} (h : c.accept? piece = some c') :
    c.rest = piece.toList ++ c'.rest := by
  unfold accept? at h
  obtain ⟨rest, hrest, rfl⟩ := Option.map_eq_some_iff.mp h
  exact eq_of_stripStart? hrest

theorem leads_accept? {piece : String} (h : c.accept? piece = some c') : Leads c c' := by
  have hrest := append_accept? h
  unfold accept? at h
  obtain ⟨rest, -, rfl⟩ := Option.map_eq_some_iff.mp h
  exact leads_of_append hrest

theorem leads_readUntil? {delimiter : String} {text : List Char}
    (h : c.readUntil? delimiter = some (text, c')) :
    Leads c c' ∧ c.rest = text ++ delimiter.toList ++ c'.rest := by
  unfold readUntil? at h
  obtain ⟨⟨before, after⟩, hcut, heq⟩ := Option.map_eq_some_iff.mp h
  cases heq
  rw [← Mark.advance_append]
  exact ⟨leads_of_append (eq_of_cutAt? hcut), eq_of_cutAt? hcut⟩

theorem append_readName? {name : List Char} (h : c.readName? = some (name, c')) :
    c.rest = name ++ c'.rest := by
  unfold readName? at h
  split at h
  · cases h
  · cases h
    exact (List.takeWhile_append_dropWhile ..).symm

-- A name has one character at least.
theorem leads_readName? {name : List Char} (h : c.readName? = some (name, c')) :
    Leads c c' ∧ c'.rest.length < c.rest.length := by
  have hrest : c.rest = c.rest.takeWhile isTagNameChar ++ c.rest.dropWhile isTagNameChar :=
    (List.takeWhile_append_dropWhile ..).symm
  unfold readName? at h
  split at h
  · cases h
  · rename_i name' hne
    cases h
    refine ⟨leads_of_append hrest, ?_⟩
    have hpos : 0 < (c.rest.takeWhile isTagNameChar).length := List.length_pos_iff.mpr hne
    have hlen := congrArg List.length hrest
    rw [List.length_append] at hlen
    dsimp only
    omega

-- An end tag is more than its name.
theorem length_behindEndTag? {name s rest : List Char} (h : behindEndTag? name s = some rest) :
    rest.length < s.length := by
  unfold behindEndTag? at h
  obtain ⟨s₁, h₁, h⟩ := Option.bind_eq_some_iff.mp h
  obtain ⟨s₂, h₂, h⟩ := Option.bind_eq_some_iff.mp h
  have hopen := congrArg List.length (eq_of_stripStart? h₁)
  have hname := congrArg List.length (eq_of_stripStart? h₂)
  have hclose := congrArg List.length (eq_of_stripStart? h)
  have hblank : (s₂.dropWhile isBlank).length ≤ s₂.length :=
    (List.dropWhile_sublist _).length_le
  rw [List.length_append] at hopen hname hclose
  rw [show "</".toList.length = 2 from rfl] at hopen
  omega

-- An end tag is passed over as a whole.
theorem suffix_behindEndTag? {name s rest : List Char} (h : behindEndTag? name s = some rest) :
    rest <:+ s := by
  unfold behindEndTag? at h
  obtain ⟨s₁, h₁, h⟩ := Option.bind_eq_some_iff.mp h
  obtain ⟨s₂, h₂, h⟩ := Option.bind_eq_some_iff.mp h
  have hclose : rest <:+ s₂ := by
    refine List.IsSuffix.trans ⟨_, (eq_of_stripStart? h).symm⟩ (List.dropWhile_suffix _)
  have hname : s₂ <:+ s₁ := ⟨_, (eq_of_stripStart? h₂).symm⟩
  exact (hclose.trans hname).trans ⟨_, (eq_of_stripStart? h₁).symm⟩

theorem cutEndTag?_eq_some {name s text rest : List Char}
    (h : cutEndTag? name s = some (text, rest)) :
    ∃ tag, s = text ++ tag ++ rest ∧ behindEndTag? name (tag ++ rest) = some rest := by
  induction s generalizing text with
  | nil => cases h
  | cons d s ih =>
    unfold cutEndTag? at h
    split at h
    · rename_i behind hbehind
      cases h
      obtain ⟨tag, htag⟩ := suffix_behindEndTag? hbehind
      exact ⟨tag, htag.symm, htag ▸ hbehind⟩
    · obtain ⟨⟨text', rest'⟩, hcut, heq⟩ := Option.map_eq_some_iff.mp h
      cases heq
      obtain ⟨tag, rfl, hbehind⟩ := ih hcut
      exact ⟨tag, rfl, hbehind⟩

theorem rest_moveTo {before tail : List Char} (h : c.rest = before ++ tail) :
    (c.moveTo tail).rest = tail := by
  simp [moveTo, skip, h]

theorem leads_readThroughEndTag? {name : String} {text : List Char}
    (h : c.readThroughEndTag? name = some (text, c')) :
    Leads c c' ∧ ∃ tag, c.rest = text ++ tag ++ c'.rest ∧
      behindEndTag? name.toList (tag ++ c'.rest) = some c'.rest := by
  unfold readThroughEndTag? at h
  obtain ⟨⟨before, after⟩, hcut, heq⟩ := Option.map_eq_some_iff.mp h
  cases heq
  obtain ⟨tag, htag, hbehind⟩ := cutEndTag?_eq_some hcut
  refine ⟨leads_moveTo c _, tag, ?_⟩
  rw [rest_moveTo htag]
  exact ⟨htag, hbehind⟩

-- A cursor that leads to another has passed over what is missing there.
theorem Leads.mark_eq {passed : List Char} (h : Leads c c') (hrest : c.rest = passed ++ c'.rest) :
    c'.mark = c.mark.advance passed := by
  obtain ⟨n, rfl⟩ := h
  have hsplit : c.rest.take n ++ c.rest.drop n = passed ++ c.rest.drop n := by
    rw [List.take_append_drop]
    exact hrest
  simp only [skip, List.append_cancel_right hsplit]

theorem Leads.exists_passed (h : Leads c c') : ∃ passed, c.rest = passed ++ c'.rest := by
  obtain ⟨n, rfl⟩ := h
  exact ⟨_, (List.take_append_drop n c.rest).symm⟩

theorem leads_endTag? {name : String} (h : c.endTag? name = some c') :
    Leads c c' ∧ c'.rest.length < c.rest.length := by
  unfold endTag? at h
  obtain ⟨rest, hrest, rfl⟩ := Option.map_eq_some_iff.mp h
  have hlen := length_behindEndTag? hrest
  have hle := length_moveTo_le c rest
  exact ⟨leads_moveTo c rest, by omega⟩

end Cursor

namespace Relaxed

open Builder Cursor

variable {b b' : Builder} {c c' : Cursor} {mark : Mark}

theorem readQuoted_eq_ok {name : List Char} {a : Attribute}
    (h : readQuoted name mark c b = .ok (a, c') b') :
    b' = b ∧ c.Leads c' ∧ a.name = String.ofList name ∧ a.mark = mark ∧
      ∃ raw, a.QuotedAs raw c.rest := by
  unfold readQuoted at h
  cases hrest : c.rest with
  | nil =>
    rw [hrest] at h
    exact absurd h fail_ne_ok
  | cons quote rest =>
    rw [hrest] at h
    dsimp only at h
    split at h
    · rename_i hquote
      have hquote : quote = '"' ∨ quote = '\'' := by simpa using hquote
      cases hcode : readCode quote rest with
      | some found =>
        rw [hcode] at h
        cases h
        obtain ⟨raw, rfl⟩ := readCode_eq_some hcode
        exact ⟨rfl, leads_moveTo c _, rfl, rfl, raw, ⟨quote, _, hquote, rfl⟩,
          fun hscripting => nomatch hscripting⟩
      | none =>
        rw [hcode] at h
        cases hvalue : readValue quote rest with
        | some found =>
          rw [hvalue] at h
          cases h
          obtain ⟨raw, rfl, hplain⟩ := readValue_eq_some hvalue
          refine ⟨rfl, leads_moveTo c _, rfl, rfl, raw, ⟨quote, _, hquote, rfl⟩,
            fun _ hword _ => ?_⟩
          rw [String.toList_ofList] at hword ⊢
          exact hplain hword
        | none =>
          rw [hvalue] at h
          exact absurd h fail_ne_ok
    · exact absurd h fail_ne_ok

-- An attribute has a name, so that it uses up text.
theorem readAttribute_eq_ok {a : Attribute} (h : readAttribute c b = .ok (a, c') b') :
    b' = b ∧ c.Leads c' ∧ c'.rest.length < c.rest.length ∧ a.mark = c.mark ∧
      ∃ raw, a.WrittenAs raw c.rest := by
  unfold readAttribute at h
  cases hname : c.readName? with
  | none =>
    rw [hname] at h
    exact absurd h fail_ne_ok
  | some found =>
    obtain ⟨name, behind⟩ := found
    obtain ⟨hleads, hlt⟩ := leads_readName? hname
    have hpassed := append_readName? hname
    rw [hname] at h
    dsimp only at h
    cases hvalue : behind.skipBlanks.accept? "=" with
    | none =>
      rw [hvalue] at h
      exact absurd h fail_ne_ok
    | some value =>
      rw [hvalue] at h
      obtain ⟨rfl, hquoted, haname, hamark, raw, hraw⟩ := readQuoted_eq_ok h
      have hbehind : behind.Leads c' :=
        (leads_skipBlanks behind).trans
          ((leads_accept? hvalue).trans ((leads_skipBlanks value).trans hquoted))
      have hle := hbehind.length_le
      have hrest : behind.rest = behind.rest.takeWhile isBlank ++ ("=".toList ++ value.rest) := by
        rw [← append_accept? hvalue, append_skipBlanks]
      refine ⟨rfl, hleads.trans hbehind, by omega, hamark, raw, behind.rest.takeWhile isBlank,
        value.rest.takeWhile isBlank, _, ?_, allBlank_takeWhile _, allBlank_takeWhile _, hraw⟩
      rw [haname, String.toList_ofList, append_skipBlanks value, hpassed]
      exact congrArg _ hrest

-- The end that a list of attributes meets, when one stands here.
def metEnd? (ends : List String) (c : Cursor) : Option (String × Cursor) :=
  ends.findSome? fun e => (c.accept? e).map fun behind => (e, behind)

theorem leads_metEnd? {ends : List String} {e : String} (h : metEnd? ends c = some (e, c')) :
    c.Leads c' := by
  obtain ⟨e', -, he⟩ := List.exists_of_findSome?_eq_some h
  obtain ⟨behind, hbehind, heq⟩ := Option.map_eq_some_iff.mp he
  cases heq
  exact leads_accept? hbehind

theorem readAttributesFrom_eq_ok {ends : List String} {start : Mark} {fuel : Nat}
    {attrs : List Attribute} {e : String}
    (h : readAttributesFrom ends start fuel c b = .ok (attrs, e, c') b') :
    b' = b ∧ c.Leads c' ∧
      ∀ a ∈ attrs, ∃ c₁ raw, c.Leads c₁ ∧ a.mark = c₁.mark ∧ a.WrittenAs raw c₁.rest := by
  induction fuel generalizing c b attrs e c' b' with
  | zero => exact absurd h fail_ne_ok
  | succ fuel ih =>
    unfold readAttributesFrom at h
    dsimp only at h
    cases hend : metEnd? ends c.skipBlanks with
    | some found =>
      rw [metEnd?] at hend
      rw [hend] at h
      cases h
      exact ⟨rfl, (leads_skipBlanks c).trans (leads_metEnd? hend), fun a ha => nomatch ha⟩
    | none =>
      rw [metEnd?] at hend
      rw [hend] at h
      dsimp only at h
      split at h
      · obtain ⟨_, _, hfail, -⟩ := BuildM.bind_eq_ok.mp h
        exact absurd hfail fail_ne_ok
      · obtain ⟨⟨a, c₁⟩, b₁, hfirst, h⟩ := BuildM.bind_eq_ok.mp h
        obtain ⟨⟨rest, e', c₂⟩, b₂, hmore, h⟩ := BuildM.bind_eq_ok.mp h
        cases h
        obtain ⟨rfl, hleads, -, hmark, raw, hwritten⟩ := readAttribute_eq_ok hfirst
        obtain ⟨rfl, hleads', hrest⟩ := ih hmore
        have hone := (leads_skipBlanks c).trans hleads
        refine ⟨rfl, hone.trans hleads', List.forall_mem_cons.mpr
          ⟨⟨_, raw, leads_skipBlanks c, hmark, hwritten⟩, fun a ha => ?_⟩⟩
        obtain ⟨c₃, raw', hc₃, hfound⟩ := hrest a ha
        exact ⟨c₃, raw', hone.trans hc₃, hfound⟩

theorem readAttributes_eq_ok {ends : List String} {attrs : List Attribute} {e : String}
    (h : readAttributes ends mark c b = .ok (attrs, e, c') b') : b' = b ∧ c.Leads c' ∧
      ∀ a ∈ attrs, ∃ c₁ raw, c.Leads c₁ ∧ a.mark = c₁.mark ∧ a.WrittenAs raw c₁.rest :=
  readAttributesFrom_eq_ok h

theorem rejectScript_eq_ok {s : State} {construct : String} {u : Unit}
    (h : rejectScript s construct mark b = .ok u b') : b' = b := by
  unfold rejectScript at h
  split at h
  · exact absurd h fail_ne_ok
  · cases h
    rfl

theorem readThrough_eq_ok {delimiter construct : String} {text : List Char}
    (h : readThrough delimiter construct mark c b = .ok (text, c') b') :
    b' = b ∧ c.Leads c' ∧ c.rest = text ++ delimiter.toList ++ c'.rest := by
  unfold readThrough at h
  cases hfound : c.readUntil? delimiter with
  | some found =>
    rw [hfound] at h
    cases h
    exact ⟨rfl, leads_readUntil? hfound⟩
  | none =>
    rw [hfound] at h
    exact absurd h fail_ne_ok

theorem readBody_eq_ok {name : String} {text : List Char}
    (h : readBody name mark c b = .ok (text, c') b') :
    b' = b ∧ c.Leads c' ∧ ∃ tag, c.rest = text ++ tag ++ c'.rest ∧
      Cursor.behindEndTag? name.toList (tag ++ c'.rest) = some c'.rest := by
  unfold readBody at h
  cases hfound : c.readThroughEndTag? name with
  | some found =>
    rw [hfound] at h
    cases h
    exact ⟨rfl, leads_readThroughEndTag? hfound⟩
  | none =>
    rw [hfound] at h
    exact absurd h fail_ne_ok

theorem readDirectiveName_eq_ok {name : String}
    (h : readDirectiveName mark c b = .ok (name, c') b') : b' = b ∧ c.Leads c' := by
  unfold readDirectiveName at h
  cases hfound : c.readName? with
  | some found =>
    rw [hfound] at h
    cases h
    exact ⟨rfl, (leads_readName? hfound).1⟩
  | none =>
    rw [hfound] at h
    exact absurd h fail_ne_ok

variable {includeUnit : Includer} {s s' : State} {parent root : Nat}

-- What reading a construct does to the tree, and where the text goes on. An action whose body is
-- read like the rest of the unit stays open.
inductive Effect (includeUnit : Includer) (s : State) (parent : NodeId) (mark : Mark) (c : Cursor)
    (b : Builder) : Construct → State → Builder → Prop
  | comment {text : List Char} {c' : Cursor} {b' : Builder} (hc : c.Leads c')
      (hrest : c.rest = text ++ "--%>".toList ++ c'.rest)
      (hadd : addComment parent text mark b = .ok () b') :
      Effect includeUnit s parent mark c b .comment (s.resume c') b'
  | directive {kind : Construct} {name : String} {attrs : List Attribute} {c' : Cursor} {id : Nat}
      {b' : Builder} (hkind : kind = .directive ∨ kind = .directiveElement) (hc : c.Leads c')
      (hattrs : ∀ a ∈ attrs, ∃ c₁ raw, c.Leads c₁ ∧ a.mark = c₁.mark ∧ a.WrittenAs raw c₁.rest)
      (hadd : addDirective includeUnit parent name attrs mark b = .ok id b') :
      Effect includeUnit s parent mark c b kind (s.resume c') b'
  | script {kind : ScriptKind} {code : List Char} {c' : Cursor} {id : Nat} {b' : Builder}
      (hc : c.Leads c') (hrest : c.rest = code ++ "%>".toList ++ c'.rest)
      (hadd : addScript parent kind (.inline (String.ofList (unescapeCode code))) mark b =
        .ok id b') :
      Effect includeUnit s parent mark c b (.script kind) (s.resume c') b'
  | scriptElement {kind : ScriptKind} {before code behind : List Char} {c' : Cursor} {id : Nat}
      {b' : Builder} (hc : c.Leads c') (hrest : c.rest = before ++ code ++ behind ++ c'.rest)
      (hadd : addScript parent kind (.inline (String.ofList code)) mark b = .ok id b') :
      Effect includeUnit s parent mark c b (.scriptElement kind) (s.resume c') b'
  | empty {kind : Construct} {name : String} {attrs : List Attribute} {c' : Cursor} {id : Nat}
      {b₁ b' : Builder} (hc : c.Leads c')
      (hstart : startAction parent name attrs mark .relaxed b = .ok id b₁)
      (hfinish : finishElement id b₁ = .ok () b') :
      Effect includeUnit s parent mark c b kind (s.resume c') b'
  | filled {kind : Construct} {name : String} {attrs : List Attribute} {text : List Char}
      {c₁ c' : Cursor} {id : Nat} {b₁ b₂ b' : Builder} (hc₁ : c.Leads c₁) (hc : c₁.Leads c')
      (htext : ∃ tag, c₁.rest = text ++ tag ++ c'.rest ∧
        Cursor.behindEndTag? name.toList (tag ++ c'.rest) = some c'.rest)
      (hstart : startAction parent name attrs mark .relaxed b = .ok id b₁)
      (hfill : addText id text c₁.mark { b₁ with tree := b₁.tree.openBody id } = .ok () b₂ ∨
        bodyContent? (b₁.tree.openBody id) id = some .verbatim ∧
          addVerbatim id text c₁.mark { b₁ with tree := b₁.tree.openBody id } = .ok () b₂)
      (hfinish : finishElement id b₂ = .ok () b') :
      Effect includeUnit s parent mark c b kind (s.resume c') b'
  | opened {kind : Construct} {name : String} {attrs : List Attribute} {c' : Cursor} {id : Nat}
      {b₁ : Builder} {scriptless : Bool} (hc : c.Leads c')
      (hstart : startAction parent name attrs mark .relaxed b = .ok id b₁) :
      Effect includeUnit s parent mark c b kind
        { s.resume c' with frames := ⟨id, name, scriptless⟩ :: s.frames }
        { b₁ with tree := b₁.tree.openBody id }

theorem readAction_effect {name : String} (h : readAction s parent name mark c b = .ok s' b') :
    Effect includeUnit s parent mark c b (.action name) s' b' := by
  simp only [readAction, BuildM.bind_eq_ok, Prod.exists] at h
  obtain ⟨attrs, closed, c₁, b₁, hattrs, id, b₂, hstart, h⟩ := h
  obtain ⟨rfl, hleads, -⟩ := readAttributes_eq_ok hattrs
  split at h
  · obtain ⟨_, b₃, hfinish, h⟩ := BuildM.bind_eq_ok.mp h
    cases h
    exact .empty hleads hstart hfinish
  · simp only [BuildM.bind_eq_ok] at h
    obtain ⟨_, b₃, ⟨⟩, b₄, _, ⟨⟩, h⟩ := h
    cases hcontent : bodyContent? (b₂.tree.openBody id) id with
    | none =>
      rw [hcontent] at h
      cases h
      exact .opened hleads hstart
    | some content =>
      rw [hcontent] at h
      cases content with
      | verbatim =>
        simp only [BuildM.bind_eq_ok, Prod.exists] at h
        obtain ⟨text, behind, b₆, hbody, _, b₇, hfill, _, b₈, hfinish, ⟨⟩⟩ := h
        obtain ⟨rfl, hbehind, htext⟩ := readBody_eq_ok hbody
        exact .filled hleads hbehind htext hstart (.inr ⟨hcontent, hfill⟩) hfinish
      | markup | empty | scriptless =>
        cases h
        exact .opened hleads hstart

theorem directive_effect
    (h : readConstruct includeUnit s parent .directive mark c b = .ok s' b') :
    Effect includeUnit s parent mark c b .directive s' b' := by
  simp only [readConstruct, BuildM.bind_eq_ok, Prod.exists] at h
  obtain ⟨name, c₁, b₁, hname, attrs, _, c₂, b₂, hattrs, _, b₃, hadd, ⟨⟩⟩ := h
  obtain ⟨rfl, hleads⟩ := readDirectiveName_eq_ok hname
  obtain ⟨rfl, hbehind, hwritten⟩ := readAttributes_eq_ok hattrs
  obtain ⟨id, hadd⟩ := BuildM.discard_eq_ok hadd
  have hname := (leads_skipBlanks c).trans hleads
  refine .directive (.inl rfl) (hname.trans hbehind) (fun a ha => ?_) hadd
  obtain ⟨c₃, raw, hc₃, hfound⟩ := hwritten a ha
  exact ⟨c₃, raw, hname.trans hc₃, hfound⟩

-- The element of a directive may be empty, or be closed by an end tag right behind it.
theorem directiveElement_effect
    (h : readConstruct includeUnit s parent .directiveElement mark c b = .ok s' b') :
    Effect includeUnit s parent mark c b .directiveElement s' b' := by
  simp only [readConstruct, BuildM.bind_eq_ok, Prod.exists] at h
  obtain ⟨name, c₁, b₁, hname, attrs, closed, c₂, b₂, hattrs, h⟩ := h
  obtain ⟨rfl, hleads⟩ := readDirectiveName_eq_ok hname
  obtain ⟨rfl, hbehind, hwritten⟩ := readAttributes_eq_ok hattrs
  have hattrs : ∀ a ∈ attrs, ∃ c₁ raw, c.Leads c₁ ∧ a.mark = c₁.mark ∧
      a.WrittenAs raw c₁.rest := fun a ha => by
    obtain ⟨c₃, raw, hc₃, hfound⟩ := hwritten a ha
    exact ⟨c₃, raw, hleads.trans hc₃, hfound⟩
  split at h
  · cases hend : c₂.skipBlanks.endTag? ("jsp:directive." ++ name) with
    | none =>
      rw [hend] at h
      obtain ⟨_, _, hfail, -⟩ := BuildM.bind_eq_ok.mp h
      exact absurd hfail fail_ne_ok
    | some c₃ =>
      have hclosed := (leads_skipBlanks c₂).trans (leads_endTag? hend).1
      rw [hend] at h
      simp only [BuildM.bind_eq_ok] at h
      obtain ⟨_, _, ⟨⟩, _, b₃, hadd, ⟨⟩⟩ := h
      obtain ⟨id, hadd⟩ := BuildM.discard_eq_ok hadd
      exact .directive (.inr rfl) (hleads.trans (hbehind.trans hclosed)) hattrs hadd
  · simp only [BuildM.bind_eq_ok] at h
    obtain ⟨_, _, ⟨⟩, _, b₃, hadd, ⟨⟩⟩ := h
    obtain ⟨id, hadd⟩ := BuildM.discard_eq_ok hadd
    exact .directive (.inr rfl) (hleads.trans hbehind) hattrs hadd

theorem scriptElement_effect {kind : ScriptKind}
    (h : readConstruct includeUnit s parent (.scriptElement kind) mark c b = .ok s' b') :
    Effect includeUnit s parent mark c b (.scriptElement kind) s' b' := by
  simp only [readConstruct, BuildM.bind_eq_ok, Prod.exists] at h
  obtain ⟨_, b₁, hreject, attrs, closed, c₁, b₂, hattrs, h⟩ := h
  obtain rfl := rejectScript_eq_ok hreject
  obtain ⟨rfl, hleads, -⟩ := readAttributes_eq_ok hattrs
  cases attrs with
  | cons a rest => exact absurd h fail_ne_ok
  | nil =>
    obtain ⟨passed, hpassed⟩ := hleads.exists_passed
    simp only at h
    split at h
    · simp only [BuildM.bind_eq_ok] at h
      obtain ⟨_, _, ⟨⟩, _, b₃, hadd, ⟨⟩⟩ := h
      obtain ⟨id, hadd⟩ := BuildM.discard_eq_ok hadd
      have hrest : c.rest = passed ++ [] ++ [] ++ c₁.rest := by simpa using hpassed
      exact .scriptElement hleads hrest hadd
    · simp only [BuildM.bind_eq_ok, Prod.exists] at h
      obtain ⟨code, c₂, b₃, hbody, _, b₄, hadd, ⟨⟩⟩ := h
      obtain ⟨rfl, hbehind, tag, htag, -⟩ := readBody_eq_ok hbody
      obtain ⟨id, hadd⟩ := BuildM.discard_eq_ok hadd
      have hrest : c.rest = passed ++ code ++ tag ++ c₂.rest := by simp [hpassed, htag]
      exact .scriptElement (hleads.trans hbehind) hrest hadd

theorem textElement_effect
    (h : readConstruct includeUnit s parent .textElement mark c b = .ok s' b') :
    Effect includeUnit s parent mark c b .textElement s' b' := by
  simp only [readConstruct, BuildM.bind_eq_ok, Prod.exists] at h
  obtain ⟨attrs, closed, c₁, b₁, hattrs, id, b₂, hstart, h⟩ := h
  obtain ⟨rfl, hleads, -⟩ := readAttributes_eq_ok hattrs
  split at h
  · obtain ⟨_, b₃, hfinish, h⟩ := BuildM.bind_eq_ok.mp h
    cases h
    exact .empty hleads hstart hfinish
  · simp only [BuildM.bind_eq_ok, Prod.exists] at h
    obtain ⟨_, b₃, ⟨⟩, text, behind, b₄, hbody, _, b₅, hfill, _, b₆, hfinish, ⟨⟩⟩ := h
    obtain ⟨rfl, hbehind, htext⟩ := readBody_eq_ok hbody
    exact .filled hleads hbehind htext hstart (.inl hfill) hfinish

theorem readConstruct_effect {kind : Construct}
    (h : readConstruct includeUnit s parent kind mark c b = .ok s' b') :
    Effect includeUnit s parent mark c b kind s' b' := by
  cases kind with
  | comment =>
    simp only [readConstruct, BuildM.bind_eq_ok, Prod.exists] at h
    obtain ⟨text, c₁, b₁, hread, _, b₂, hadd, ⟨⟩⟩ := h
    obtain ⟨rfl, hleads, hrest⟩ := readThrough_eq_ok hread
    exact .comment hleads hrest hadd
  | directive => exact directive_effect h
  | script kind =>
    simp only [readConstruct, BuildM.bind_eq_ok, Prod.exists] at h
    obtain ⟨_, b₁, hreject, code, c₁, b₂, hread, _, b₃, hadd, ⟨⟩⟩ := h
    obtain rfl := rejectScript_eq_ok hreject
    obtain ⟨rfl, hleads, hrest⟩ := readThrough_eq_ok hread
    obtain ⟨id, hadd⟩ := BuildM.discard_eq_ok hadd
    exact .script hleads hrest hadd
  | directiveElement => exact directiveElement_effect h
  | scriptElement kind => exact scriptElement_effect h
  | textElement => exact textElement_effect h
  | endTag => exact absurd h fail_ne_ok
  | action name => exact readAction_effect h

-- Behind a construct the text starts anew.
structure Resumed (c : Cursor) (s : State) : Prop where
  leads : c.Leads s.cursor
  text_eq : s.text = []
  textMark_eq : s.textMark = s.cursor.mark

theorem Effect.resumed {kind : Construct} (h : Effect includeUnit s parent mark c b kind s' b') :
    Resumed c s' := by
  cases h with
  | comment hc _ _ => exact ⟨hc, rfl, rfl⟩
  | directive _ hc _ _ => exact ⟨hc, rfl, rfl⟩
  | script hc _ _ => exact ⟨hc, rfl, rfl⟩
  | scriptElement hc _ _ => exact ⟨hc, rfl, rfl⟩
  | empty hc _ _ => exact ⟨hc, rfl, rfl⟩
  | filled hc₁ hc _ _ _ _ => exact ⟨hc₁.trans hc, rfl, rfl⟩
  | opened hc _ => exact ⟨hc, rfl, rfl⟩

-- What stands behind the opening of a construct is shorter than the text that starts with it.
theorem length_construct? {bindings : Bindings} {text behind : List Char} {kind : Construct}
    (h : construct? bindings text = some (kind, behind)) : behind.length < text.length := by
  unfold construct? at h
  split at h
  · rename_i rest
    split at h
    · rename_i found hfound
      cases h
      obtain ⟨⟨opening, k⟩, hmem, ho⟩ := List.exists_of_findSome?_eq_some hfound
      obtain ⟨after, hafter, heq⟩ := Option.map_eq_some_iff.mp ho
      cases heq
      have hlen := congrArg List.length (eq_of_stripStart? hafter)
      have hall : ∀ o ∈ openings, 0 < o.1.toList.length := by decide
      have hpos : 0 < opening.toList.length := hall _ hmem
      rw [List.length_append] at hlen
      omega
    · split at h
      · obtain ⟨k, -, heq⟩ := Option.map_eq_some_iff.mp h
        cases heq
        simp only [List.length_cons]
        omega
      · obtain ⟨k, -, heq⟩ := Option.map_eq_some_iff.mp h
        cases heq
        have hle : (rest.dropWhile isTagNameChar).length ≤ rest.length :=
          (List.dropWhile_sublist _).length_le
        rw [List.length_cons]
        omega
  · cases h

-- The end tag of the innermost element, when it stands at the cursor.
def State.closing? (s : State) : Option (Frame × Cursor) := do
  let frame ← s.frames.head?
  return (frame, ← s.cursor.endTag? frame.name)

-- What one step can do.
inductive Move (includeUnit : Includer) (root : NodeId) (s : State) (b : Builder) :
    Option State → Builder → Prop
  | close {frame : Frame} {behind : Cursor} {b₁ b' : Builder}
      (hclosing : s.closing? = some (frame, behind)) (hflush : flush s root b = .ok () b₁)
      (hfinish : finishElement frame.id b₁ = .ok () b') :
      Move includeUnit root s b (some { s.resume behind with frames := s.frames.tail }) b'
  | stop {b' : Builder} (hclosing : s.closing? = none) (hend : s.cursor.rest = [])
      (hflush : flush s root b = .ok () b') (hframes : s.frames = []) :
      Move includeUnit root s b none b'
  | construct {kind : Construct} {behind : List Char} {b₁ b' : Builder} {s' : State}
      (hclosing : s.closing? = none) (hrest : s.cursor.rest ≠ [])
      (hkind : construct? b.bindings s.cursor.rest = some (kind, behind))
      (hflush : flush s root b = .ok () b₁)
      (hread : readConstruct includeUnit s (s.parent root) kind s.cursor.mark
        (s.cursor.moveTo behind) b₁ = .ok s' b') :
      Move includeUnit root s b (some s') b'
  | text {b' : Builder} {s' : State} (hclosing : s.closing? = none) (hrest : s.cursor.rest ≠ [])
      (hkind : construct? b.bindings s.cursor.rest = none) (hread : readText s b = .ok s' b') :
      Move includeUnit root s b (some s') b'

theorem step_move {next : Option State}
    (h : step includeUnit root s b = .ok next b') : Move includeUnit root s b next b' := by
  unfold step at h
  dsimp only at h
  cases hclosing : s.closing? with
  | some found =>
    obtain ⟨frame, behind⟩ := found
    rw [State.closing?] at hclosing
    rw [hclosing] at h
    simp only [BuildM.bind_eq_ok] at h
    obtain ⟨_, b₁, hflush, _, b₂, hfinish, ⟨⟩⟩ := h
    exact .close hclosing hflush hfinish
  | none =>
    have hnone := hclosing
    rw [State.closing?] at hclosing
    rw [hclosing] at h
    dsimp only at h
    split at h
    · rename_i hend
      have hrest : s.cursor.rest = [] := List.isEmpty_iff.mp hend
      obtain ⟨_, b₁, hflush, h⟩ := BuildM.bind_eq_ok.mp h
      cases hframes : s.frames with
      | nil =>
        rw [hframes] at h
        cases h
        exact .stop hnone hrest hflush hframes
      | cons frame rest =>
        rw [hframes] at h
        dsimp only at h
        obtain ⟨b₂, _, -, h⟩ := BuildM.bind_eq_ok.mp h
        obtain ⟨_, _, hfail, -⟩ := BuildM.bind_eq_ok.mp h
        exact absurd hfail fail_ne_ok
    · rename_i hend
      have hrest : s.cursor.rest ≠ [] := fun hnil => hend (List.isEmpty_iff.mpr hnil)
      obtain ⟨b₀, _, hget, h⟩ := BuildM.bind_eq_ok.mp h
      cases hget
      cases hkind : construct? b.bindings s.cursor.rest with
      | some found =>
        obtain ⟨kind, behind⟩ := found
        rw [hkind] at h
        dsimp only at h
        obtain ⟨_, b₁, hflush, h⟩ := BuildM.bind_eq_ok.mp h
        obtain ⟨s', hread, rfl⟩ := BuildM.map_eq_ok.mp h
        exact .construct hnone hrest hkind hflush hread
      | none =>
        rw [hkind] at h
        obtain ⟨s', hread, rfl⟩ := BuildM.map_eq_ok.mp h
        exact .text hnone hrest hkind hread

-- What reading text does: one piece more, and no change to the tree.
theorem readText_eq_ok (h : readText s b = .ok s' b') :
    b' = b ∧ ∃ piece width, textPiece b.scan s.cursor.rest = some (piece, width) ∧
      s' = { s with
        cursor := s.cursor.skip width
        text := piece.reverse ++ s.text
        textMark := if s.text.isEmpty then s.cursor.mark else s.textMark } := by
  unfold readText at h
  obtain ⟨b₀, _, hget, h⟩ := BuildM.bind_eq_ok.mp h
  cases hget
  cases hpiece : textPiece b.scan s.cursor.rest with
  | none =>
    rw [hpiece] at h
    exact absurd h fail_ne_ok
  | some found =>
    obtain ⟨piece, width⟩ := found
    rw [hpiece] at h
    cases h
    exact ⟨rfl, piece, width, rfl, rfl⟩

theorem textPiece_width_pos {scan : ScanOptions} {text piece : List Char} {width : Nat}
    (h : textPiece scan text = some (piece, width)) : 0 < width := by
  unfold textPiece at h
  split at h
  · cases h
    decide
  · split at h
    · cases h
      decide
    · split at h
      · obtain ⟨cut, -, heq⟩ := Option.map_eq_some_iff.mp h
        cases heq
        omega
      · cases h
        decide

-- Each step but the last uses up text, and the cursor stays in its unit.
theorem leads_step (h : step includeUnit root s b = .ok (some s') b') :
    s.cursor.Leads s'.cursor ∧ s'.cursor.rest.length < s.cursor.rest.length := by
  cases step_move h with
  | close hclosing hflush hfinish =>
    obtain ⟨frame, -, hclosing⟩ := Option.bind_eq_some_iff.mp hclosing
    obtain ⟨behind, hbehind, heq⟩ := Option.bind_eq_some_iff.mp hclosing
    cases heq
    exact leads_endTag? hbehind
  | @construct kind behind _ _ _ _ _ hkind _ hread =>
    have hresumed := (readConstruct_effect hread).resumed.leads
    have hlt := length_construct? hkind
    have hle := length_moveTo_le s.cursor behind
    have hle' := hresumed.length_le
    exact ⟨(leads_moveTo s.cursor behind).trans hresumed, by omega⟩
  | text hclosing hrest hkind hread =>
    obtain ⟨rfl, piece, width, hpiece, rfl⟩ := readText_eq_ok hread
    have hwidth := textPiece_width_pos hpiece
    have hpos : 0 < s.cursor.rest.length := List.length_pos_iff.mpr hrest
    refine ⟨leads_skip s.cursor width, ?_⟩
    simp only [Cursor.skip, List.length_drop]
    omega

end Relaxed
end PageCompiler
