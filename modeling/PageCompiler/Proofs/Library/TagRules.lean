import PageCompiler.Proofs.Checking.Established

namespace PageCompiler

open Checking (bind_eq_ok)

-- The body that a fragment is takes the place of all expressions, and no expression is both a value
-- and a method.
structure AttributeContract.Settled (a : AttributeContract) : Prop where
  fragment : a.fragment → ¬a.runtimeExpression ∧ ¬a.deferredValue ∧ ¬a.deferredMethod
  deferred : ¬(a.deferredValue ∧ a.deferredMethod)

-- A variable has one source of its name.
def VariableContract.Named (v : VariableContract) : Prop :=
  v.nameGiven.isSome ≠ v.nameFromAttribute.isSome

structure Tag.Lawful (t : Tag) : Prop where
  distinct : (t.attributes.map AttributeContract.name).Nodup
  settled : ∀ a ∈ t.attributes, a.Settled
  named : ∀ v ∈ t.exposed, v.Named

theorem AttributeContract.settled_iff (a : AttributeContract) :
    a.Settled ↔
      ¬(a.fragment && (a.runtimeExpression || a.deferredValue || a.deferredMethod)) ∧
        ¬(a.deferredValue && a.deferredMethod) := by
  constructor
  · rintro ⟨hfragment, hdeferred⟩
    simp only [Bool.and_eq_true, Bool.or_eq_true]
    refine ⟨?_, hdeferred⟩
    rintro ⟨hf, (hr | hv) | hm⟩
    · exact (hfragment hf).1 hr
    · exact (hfragment hf).2.1 hv
    · exact (hfragment hf).2.2 hm
  · simp only [Bool.and_eq_true, Bool.or_eq_true]
    rintro ⟨hfragment, hdeferred⟩
    exact ⟨fun hf => ⟨fun hr => hfragment ⟨hf, .inl (.inl hr)⟩,
      fun hv => hfragment ⟨hf, .inl (.inr hv)⟩, fun hm => hfragment ⟨hf, .inr hm⟩⟩, hdeferred⟩

namespace Descriptor

theorem checkAttributes_eq_ok_iff {tag : String} {seen : List String}
    {attrs : List AttributeContract} :
    checkAttributes tag seen attrs = .ok () ↔
      (attrs.map AttributeContract.name).Nodup ∧ (∀ a ∈ attrs, a.name ∉ seen) ∧
        ∀ a ∈ attrs, a.Settled := by
  induction attrs generalizing seen with
  | nil => simp [checkAttributes]
  | cons a rest ih =>
    unfold checkAttributes
    by_cases hseen : a.name ∈ seen
    · simp [hseen]
    have hsettled := a.settled_iff
    by_cases hfragment :
        a.fragment && (a.runtimeExpression || a.deferredValue || a.deferredMethod)
    · have hnot : ¬a.Settled := fun h => (hsettled.mp h).1 hfragment
      simp [hseen, hfragment, hnot]
    by_cases hdeferred : a.deferredValue && a.deferredMethod
    · have hnot : ¬a.Settled := fun h => (hsettled.mp h).2 hdeferred
      simp [hseen, hfragment, hdeferred, hnot]
    have ha : a.Settled := hsettled.mpr ⟨hfragment, hdeferred⟩
    rw [if_neg (by simpa using hseen), if_neg hfragment, if_neg hdeferred, ih]
    simp only [List.map_cons, List.nodup_cons, List.mem_map, List.mem_cons, forall_eq_or_imp,
      not_or, hseen, ha, not_false_eq_true, true_and]
    constructor
    · rintro ⟨hnodup, hnames, hall⟩
      refine ⟨⟨?_, hnodup⟩, fun b hb => (hnames b hb).2, hall⟩
      rintro ⟨b, hb, hname⟩
      exact (hnames b hb).1 hname
    · rintro ⟨⟨hname, hnodup⟩, hnames, hall⟩
      exact ⟨hnodup, fun b hb => ⟨fun heq => hname ⟨b, hb, heq⟩, hnames b hb⟩, hall⟩

theorem checkVariables_eq_ok_iff {tag : String} {vars : List VariableContract} :
    checkVariables tag vars = .ok () ↔ ∀ v ∈ vars, v.Named := by
  induction vars with
  | nil => simp [checkVariables]
  | cons v rest ih =>
    unfold checkVariables
    by_cases hsame : v.nameGiven.isSome = v.nameFromAttribute.isSome
    · simp [hsame, VariableContract.Named]
    · simp [hsame, VariableContract.Named, ih]

theorem lawful_tagOf_iff {t : TagDescriptor} :
    (tagOf t).Lawful ↔
      checkAttributes t.name [] t.attributes = .ok () ∧
        checkVariables t.name t.exposed = .ok () := by
  rw [checkAttributes_eq_ok_iff, checkVariables_eq_ok_iff]
  constructor
  · rintro ⟨hdistinct, hsettled, hnamed⟩
    exact ⟨⟨hdistinct, fun _ _ => List.not_mem_nil, hsettled⟩, hnamed⟩
  · rintro ⟨⟨hdistinct, -, hsettled⟩, hnamed⟩
    exact ⟨hdistinct, hsettled, hnamed⟩

theorem tags_addTag {l : Library} {t : Tag} (h : l.tag? t.name = none) :
    (l.addTag t).tags = l.tags ++ [t] := by
  have hall : l.tags.filter (fun u => u.name != t.name) = l.tags := by
    refine List.filter_eq_self.mpr fun u hu => ?_
    have hne := List.find?_eq_none.mp h u hu
    simpa using hne
  rw [Library.addTag, hall]

-- The tags of a descriptor become the tags of the library, each by itself.
theorem tags_addTags {l l' : Library} {tags : List TagDescriptor}
    (h : addTags l tags = .ok l') :
    l'.tags = l.tags ++ tags.map tagOf ∧ ∀ t ∈ tags, (tagOf t).Lawful := by
  induction tags generalizing l with
  | nil =>
    cases h
    simp
  | cons t rest ih =>
    unfold addTags at h
    split at h
    · cases h
    · rename_i hnew
      obtain ⟨_, hattributes, h⟩ := bind_eq_ok.mp h
      obtain ⟨_, hvariables, h⟩ := bind_eq_ok.mp h
      obtain ⟨htags, hlawful⟩ := ih h
      have hnone : l.tag? (tagOf t).name = none := by simpa [tagOf] using hnew
      rw [tags_addTag hnone] at htags
      refine ⟨by simp [htags], List.forall_mem_cons.mpr ⟨?_, hlawful⟩⟩
      exact lawful_tagOf_iff.mpr ⟨hattributes, hvariables⟩

theorem tags_addFunctions {l l' : Library} {functions : List Function}
    (h : addFunctions l functions = .ok l') : l'.tags = l.tags := by
  induction functions generalizing l with
  | nil =>
    cases h
    rfl
  | cons f rest ih =>
    unfold addFunctions at h
    split at h
    · have htags := ih h
      exact htags
    · cases h

theorem tags_toLibrary {d : Descriptor} {origin : Option String} {l : Library}
    (h : d.toLibrary origin = .ok l) :
    l.tags = d.tags.map tagOf ∧ ∀ t ∈ l.tags, t.Lawful := by
  unfold toLibrary at h
  dsimp only at h
  cases hbuilt : addTags { uri := d.uri, shortName := d.shortName, origin } d.tags with
  | error reason =>
    rw [hbuilt] at h
    cases h
  | ok tagged =>
    rw [hbuilt] at h
    cases hfunctions : addFunctions tagged d.functions with
    | error reason =>
      simp only [Bind.bind, Except.bind, hfunctions] at h
      cases h
    | ok built =>
      simp only [Bind.bind, Except.bind, hfunctions] at h
      cases h
      obtain ⟨htags, hlawful⟩ := tags_addTags hbuilt
      have hall : l.tags = d.tags.map tagOf := by
        rw [tags_addFunctions hfunctions, htags, List.nil_append]
      refine ⟨hall, fun t ht => ?_⟩
      rw [hall] at ht
      obtain ⟨u, hu, rfl⟩ := List.mem_map.mp ht
      exact hlawful u hu

end Descriptor

namespace TagFile

-- Whether a directive asks for a deferred value.
def asksValue (attrs : List (String × String)) : Bool :=
  flag attrs "deferredValue" || (value? attrs "deferredValueType").isSome

-- Whether a directive asks for a deferred method.
def asksMethod (attrs : List (String × String)) : Bool :=
  (value? attrs "deferredMethodSignature").isSome || flag attrs "deferredMethod"

-- A directive that does not ask for an attribute that is two things at once.
def Unmixed (attrs : List (String × String)) : Prop :=
  ¬(flag attrs "fragment" ∧ (asksValue attrs ∨ asksMethod attrs)) ∧
    ¬(asksValue attrs ∧ asksMethod attrs)

-- What the attribute directives among these say, in order.
def asked (directives : List (DirectiveKind × List Char)) : List (List (String × String)) :=
  directives.filterMap fun d => if d.1 = .attribute then some (attributes d.2) else none

-- The contract of a directive, field by field. A fragment has a type of its own.
theorem attributeOf_eq (name : String) (attrs : List (String × String)) :
    attributeOf name attrs =
      { name, required := flag attrs "required"
        runtimeExpression := !flag attrs "fragment" &&
          ((value? attrs "rtexprvalue").map Text.isTrue).getD true
        typeName := if flag attrs "fragment" then "jakarta.servlet.jsp.tagext.JspFragment"
          else (value? attrs "type").getD stringClass
        fragment := flag attrs "fragment"
        deferredValue := asksValue attrs
        deferredValueType := value? attrs "deferredValueType"
        deferredMethod := asksMethod attrs
        methodSignature := (value? attrs "deferredMethodSignature").or
          (if flag attrs "deferredMethod" then some "void method()" else none) } := by
  have hvalue : (flag attrs "deferredValue" || (value? attrs "deferredValueType").isSome) =
      asksValue attrs := rfl
  have htype : asksValue attrs = false → value? attrs "deferredValueType" = none := by
    intro h
    simpa [asksValue] using (Bool.or_eq_false_iff.mp h).2
  unfold attributeOf
  rw [hvalue, asksMethod]
  cases hasks : asksValue attrs with
  | true =>
    cases flag attrs "fragment" <;> cases value? attrs "type" <;>
      cases value? attrs "deferredMethodSignature" <;> cases flag attrs "deferredMethod" <;> rfl
  | false =>
    rw [htype hasks]
    cases flag attrs "fragment" <;> cases value? attrs "type" <;>
      cases value? attrs "deferredMethodSignature" <;> cases flag attrs "deferredMethod" <;> rfl

theorem settled_attributeOf_iff (name : String) (attrs : List (String × String)) :
    (attributeOf name attrs).Settled ↔ Unmixed attrs := by
  rw [AttributeContract.settled_iff, attributeOf_eq, Unmixed]
  cases flag attrs "fragment" <;> simp

-- The attribute that a directive makes.
def Makes (attrs : List (String × String)) (a : AttributeContract) : Prop :=
  ∃ name, value? attrs "name" = some name ∧ a = attributeOf name attrs

-- What one directive does to the tag.
inductive Applied (tag : Tag) (directive : DirectiveKind × List Char) : Tag → Prop
  | kept {tag' : Tag} (hkind : directive.1 ≠ .attribute)
      (hattributes : tag'.attributes = tag.attributes) (hexposed : tag'.exposed = tag.exposed) :
      Applied tag directive tag'
  | gained {a : AttributeContract} (hkind : directive.1 = .attribute)
      (hmakes : Makes (attributes directive.2) a) (hnew : tag.find? a.name = none) :
      Applied tag directive { tag with attributes := tag.attributes ++ [a] }
  | exposed {v : VariableContract} (hkind : directive.1 ≠ .attribute) (hnamed : v.Named) :
      Applied tag directive { tag with exposed := tag.exposed ++ [v] }

theorem applyTag_eq_ok {tag tag' : Tag} {attrs : List (String × String)}
    (h : applyTag tag attrs = .ok tag') :
    tag'.attributes = tag.attributes ∧ tag'.exposed = tag.exposed := by
  unfold applyTag at h
  by_cases hdynamic : (value? attrs "dynamic-attributes").isSome
  all_goals
    simp only [hdynamic, if_true, if_false, pure_bind, Bool.false_eq_true] at h
    split at h
    · cases h
      exact ⟨rfl, rfl⟩
    · split at h <;> cases h
      exact ⟨rfl, rfl⟩

theorem applyVariable_eq_ok {tag tag' : Tag} {attrs : List (String × String)}
    (h : applyVariable tag attrs = .ok tag') :
    ∃ v : VariableContract, v.Named ∧ tag' = { tag with exposed := tag.exposed ++ [v] } := by
  unfold applyVariable at h
  simp only [pure_bind] at h
  split at h
  case h_1 =>
    split at h
    · cases h
    · rename_i hnamed
      cases h
      exact ⟨_, by simpa [VariableContract.Named] using hnamed, rfl⟩
  case h_2 =>
    split at h
    · split at h
      · cases h
      · rename_i hnamed
        cases h
        exact ⟨_, by simpa [VariableContract.Named] using hnamed, rfl⟩
    · cases h

theorem applyAttribute_eq_ok {tag tag' : Tag} {attrs : List (String × String)}
    (h : applyAttribute tag attrs = .ok tag') :
    ∃ a, Makes attrs a ∧ tag.find? a.name = none ∧
      tag' = { tag with attributes := tag.attributes ++ [a] } := by
  unfold applyAttribute at h
  cases hname : value? attrs "name" with
  | none =>
    rw [hname] at h
    cases h
  | some name =>
    rw [hname] at h
    dsimp only at h
    split at h
    · cases h
    · rename_i hnew
      cases h
      refine ⟨_, ⟨name, hname, rfl⟩, ?_, rfl⟩
      rw [attributeOf_eq]
      simpa using hnew

theorem apply_applied {tag tag' : Tag} {directive : DirectiveKind × List Char}
    (h : apply tag directive = .ok tag') : Applied tag directive tag' := by
  unfold apply at h
  dsimp only at h
  split at h
  · rename_i hkind
    obtain ⟨hattributes, hexposed⟩ := applyTag_eq_ok h
    exact .kept (by simp [hkind]) hattributes hexposed
  · rename_i hkind
    obtain ⟨a, hmakes, hnew, rfl⟩ := applyAttribute_eq_ok h
    exact .gained hkind hmakes hnew
  · rename_i hkind
    obtain ⟨v, hnamed, rfl⟩ := applyVariable_eq_ok h
    exact .exposed (by simp [hkind]) hnamed

-- What holds of the tag that has been made so far: its attributes are those of the directives, and
-- the rules of names and variables are kept.
structure Told (asked : List (List (String × String))) (tag : Tag) : Prop where
  made : List.Forall₂ Makes asked tag.attributes
  distinct : (tag.attributes.map AttributeContract.name).Nodup
  named : ∀ v ∈ tag.exposed, v.Named

theorem Applied.told {tag tag' : Tag} {directive : DirectiveKind × List Char}
    {before : List (List (String × String))} (h : Applied tag directive tag')
    (ht : Told before tag) : Told (before ++ asked [directive]) tag' := by
  obtain ⟨hmade, hdistinct, hnamed⟩ := ht
  cases h with
  | kept hkind hattributes hexposed =>
    have hnone : asked [directive] = [] := by simp [asked, hkind]
    rw [hnone, List.append_nil]
    exact ⟨hattributes ▸ hmade, hattributes ▸ hdistinct, hexposed ▸ hnamed⟩
  | @gained a hkind hmakes hnew =>
    have hone : asked [directive] = [attributes directive.2] := by simp [asked, hkind]
    have hfresh : a.name ∉ tag.attributes.map AttributeContract.name := by
      rintro hmem
      obtain ⟨b, hb, hname⟩ := List.mem_map.mp hmem
      have hne := List.find?_eq_none.mp hnew b hb
      simp [hname] at hne
    rw [hone]
    refine ⟨List.rel_append hmade (.cons hmakes .nil), ?_, hnamed⟩
    rw [List.map_append, List.map_singleton]
    refine List.nodup_append.mpr ⟨hdistinct, by simp, ?_⟩
    rintro b hb c hc rfl
    exact hfresh (List.mem_singleton.mp hc ▸ hb)
  | exposed hkind hv =>
    have hnone : asked [directive] = [] := by simp [asked, hkind]
    rw [hnone, List.append_nil]
    refine ⟨hmade, hdistinct, fun v hmem => ?_⟩
    rcases List.mem_append.mp hmem with hmem | hmem
    · exact hnamed v hmem
    · rw [List.mem_singleton.mp hmem]
      exact hv

-- By induction on the directives that are still to come.
theorem told_of_foldlM {ds : List (DirectiveKind × List Char)} {tag tag' : Tag}
    {before : List (List (String × String))} (h : ds.foldlM apply tag = .ok tag')
    (ht : Told before tag) : Told (before ++ asked ds) tag' := by
  induction ds generalizing tag before with
  | nil =>
    cases h
    simpa [asked] using ht
  | cons directive ds ih =>
    rw [List.foldlM_cons] at h
    obtain ⟨tag₁, hfirst, hrest⟩ := bind_eq_ok.mp h
    have htold := ih hrest ((apply_applied hfirst).told ht)
    rw [List.append_assoc, show asked [directive] ++ asked ds = asked (directive :: ds) from
      (List.filterMap_append ..).symm] at htold
    exact htold

theorem told_of_contract {directory name text : String} {tag : Tag}
    (h : contract directory name text = .ok tag) : Told (asked (directives text.toList)) tag :=
  told_of_foldlM h ⟨.nil, .nil, fun _ hv => nomatch hv⟩

-- Attributes that directives make are settled exactly if no directive mixes; either way, no
-- fragment takes expressions when the page runs.
theorem settled_iff_of_makes {asked : List (List (String × String))}
    {attrs : List AttributeContract} (hmade : List.Forall₂ Makes asked attrs) :
    ((∀ a ∈ attrs, a.Settled) ↔ ∀ d ∈ asked, Unmixed d) ∧
      ∀ a ∈ attrs, a.fragment → ¬a.runtimeExpression := by
  induction hmade with
  | nil => simp
  | @cons d a asked attrs hmakes _ ih =>
    obtain ⟨hsettled, hfragments⟩ := ih
    obtain ⟨name, -, rfl⟩ := hmakes
    constructor
    · rw [List.forall_mem_cons, List.forall_mem_cons, settled_attributeOf_iff, hsettled]
    · refine List.forall_mem_cons.mpr ⟨fun hfragment => ?_, hfragments⟩
      rw [attributeOf_eq] at hfragment ⊢
      simp [show flag d "fragment" = true from hfragment]

end TagFile

-- Where contracts come from. Those of a descriptor keep all rules. Those of a tag file keep the
-- rules of names and variables, and no fragment takes expressions when the page runs; they keep the
-- others exactly if no directive asks for a fragment or a deferred value and for a deferred value
-- or method besides.
theorem tags_lawful (d : Descriptor) (origin : Option String) (directory name text : String) :
    (∀ library : Library, d.toLibrary origin = .ok library →
      library.tags = d.tags.map Descriptor.tagOf ∧ ∀ t ∈ library.tags, t.Lawful) ∧
    ∀ t : Tag, TagFile.contract directory name text = .ok t →
      (t.attributes.map AttributeContract.name).Nodup ∧
        (∀ a ∈ t.attributes, a.fragment → ¬a.runtimeExpression) ∧
        (∀ v ∈ t.exposed, v.Named) ∧
        (t.Lawful ↔ ∀ attrs ∈ TagFile.asked (TagFile.directives text.toList),
          TagFile.Unmixed attrs) := by
  refine ⟨fun library h => Descriptor.tags_toLibrary h, fun t h => ?_⟩
  have htold := TagFile.told_of_contract h
  obtain ⟨hsettled, hfragments⟩ := TagFile.settled_iff_of_makes htold.made
  refine ⟨htold.distinct, hfragments, htold.named, ?_⟩
  rw [← hsettled]
  exact ⟨fun hlawful => hlawful.settled, fun h => ⟨htold.distinct, h, htold.named⟩⟩

-- A descriptor of an action with a fragment and a variable.
def fragmentDescriptor : Descriptor :=
  { uri := "u", shortName := "", functions := []
    tags := [{ name := "t", handlerClass := "T", bodyContent := .markup
               attributes := [{ name := "a", fragment := true }]
               exposed := [{ nameGiven := some "v" }], dynamicAttributes := false
               capabilities := {} }] }

-- A tag file that asks for a fragment with a deferred value.
def mixedText : String := "<%@ attribute name=\"a\" fragment=\"true\" deferredValue=\"true\" %>"

theorem tags_lawful_sample :
    (∃ library, fragmentDescriptor.toLibrary none = .ok library ∧
      library.tags = fragmentDescriptor.tags.map Descriptor.tagOf ∧
        ∀ t ∈ library.tags, t.Lawful) ∧
    ∃ t, TagFile.contract "/t" "x" mixedText = .ok t ∧
      t.attributes.map AttributeContract.name = ["a"] ∧ ¬t.Lawful := by
  obtain ⟨hdescriptors, hfiles⟩ := tags_lawful fragmentDescriptor none "/t" "x" mixedText
  constructor
  · exact ⟨_, rfl, hdescriptors _ rfl⟩
  have hasked : TagFile.asked (TagFile.directives mixedText.toList) =
      [[("name", "a"), ("fragment", "true"), ("deferredValue", "true")]] := by decide +kernel
  have hnames : (TagFile.contract "/t" "x" mixedText).toOption.map
      (fun t => t.attributes.map AttributeContract.name) = some ["a"] := by decide +kernel
  cases hread : TagFile.contract "/t" "x" mixedText with
  | error reason =>
    rw [hread] at hnames
    cases hnames
  | ok t =>
    rw [hread] at hnames
    refine ⟨t, rfl, by simpa [Except.toOption] using hnames, fun hlawful => ?_⟩
    have hunmixed := (hfiles t hread).2.2.2.mp hlawful
    rw [hasked, List.forall_mem_singleton] at hunmixed
    exact hunmixed.1 (by decide)

end PageCompiler
