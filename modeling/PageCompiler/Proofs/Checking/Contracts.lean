import PageCompiler.Proofs.Checking.Attributes
import PageCompiler.Proofs.Reading.Pages

namespace PageCompiler

namespace Composite

theorem uses_iff {c : Composite} {d : Dialect} :
    c.uses d = true ↔ ∃ source tree offset, Part.expr d source tree offset ∈ c.parts := by
  unfold uses
  rw [List.any_eq_true]
  constructor
  · rintro ⟨part, hpart, h⟩
    cases part with
    | text value => cases h
    | expr dialect source tree offset =>
      have hd : dialect = d := by simpa using h
      exact ⟨source, tree, offset, hd ▸ hpart⟩
  · rintro ⟨source, tree, offset, hpart⟩
    exact ⟨_, hpart, by simp⟩

theorem uses_of_dialects_eq {c : Composite} {d : Dialect} (h : c.dialects = [d]) :
    c.uses d = true ∧ ∀ d', c.uses d' = true → d' = d := by
  have hmem : ∀ d', d' ∈ c.dialects ↔ c.uses d' = true := by
    intro d'
    unfold dialects
    rw [List.mem_filter]
    cases d' <;> simp
  simp only [h, List.mem_singleton] at hmem
  exact ⟨(hmem d).mp rfl, fun d' hd => (hmem d').mpr hd⟩

-- Without an expression there is a literal text.
theorem literalText_of_dialects_eq_nil {c : Composite} (h : c.dialects = []) :
    ∃ text, c.literalText = some text := by
  have hnone : c.hasExpressions = false := by
    rw [hasExpressions, List.any_eq_false]
    intro part hpart
    cases part with
    | text value => simp
    | expr dialect source tree offset =>
      have hmem : dialect ∈ c.dialects := by
        have huses := uses_iff.mpr ⟨source, tree, offset, hpart⟩
        cases dialect <;> simp [dialects, huses]
      rw [h] at hmem
      cases hmem
  rw [literalText, hnone]
  exact ⟨_, rfl⟩

theorem parts_of_isSingleExpression {c : Composite} (h : c.isSingleExpression = true) :
    ∃ dialect source tree offset, c.parts = [.expr dialect source tree offset] := by
  unfold isSingleExpression at h
  split at h
  · exact ⟨_, _, _, _, ‹_›⟩
  · cases h

end Composite

namespace Checking

-- An attribute stands for one that is written in the tag: raw code and the source of an expression
-- are kept as they are, and a literal is the text without its escapes.
def FromTag (b : Attribute) (a : ResolvedAttribute) : Prop :=
  a.qualifiedName = b.name ∧ a.mark = b.mark ∧
    match a.value with
    | .literal text => b.scripting = false ∧
      ∃ o parts, Composite.parse o b.value.toList = .ok parts ∧ parts.literalText = some text
    | .scripting code => b.scripting = true ∧ code = b.value
    | .expression text parts _ => b.scripting = false ∧ text = b.value ∧
      ∃ o, Composite.parse o b.value.toList = .ok parts
    | .named _ => False

-- An attribute stands for an element in the body.
def FromElement (t : Tree) (child : NodeId) (a : ResolvedAttribute) : Prop :=
  a.value = .named child ∧ a.mark = t.mark child ∧
    ∃ data, t.kind child = .named data ∧ a.qualifiedName = data.name

-- The attributes of the tag come first, then those given as elements, each in its order.
def Corresponds (t : Tree) (id : NodeId) (attrs : List ResolvedAttribute) : Prop :=
  ∃ inTag inBody, attrs = inTag ++ inBody ∧
    List.Forall₂ FromTag (t.node id).attributes inTag ∧
    List.Forall₂ (FromElement t) ((t.children id).filter fun c => (t.kind c).isNamed) inBody

-- The value of an attribute is something its contract accepts.
structure Meets (contract : AttributeContract) (value : AttributeValue) : Prop where
  scripting : ∀ code, value = .scripting code → contract.runtimeExpression = true
  immediate : ∀ text parts, value = .expression text parts .immediate →
    contract.runtimeExpression = true
  deferred : ∀ text parts, value = .expression text parts .deferred →
    (contract.deferredValue = true ∨ contract.deferredMethod = true) ∧
      (contract.deferredMethod = true →
        ∃ source tree offset, parts.parts = [.expr .deferred source tree offset])
  fragment : contract.fragment = true → ∃ n, value = .named n
  literal : ∀ text, value = .literal text →
    ¬(contract.deferredMethod = true ∧ contract.returnType = "void")

-- An expression is of one dialect throughout.
def OneDialect (value : AttributeValue) : Prop :=
  ∀ text parts dialect, value = .expression text parts dialect →
    (∃ source tree offset, .expr dialect source tree offset ∈ parts.parts) ∧
      ∀ d source tree offset, .expr d source tree offset ∈ parts.parts → d = dialect

-- An attribute without a contract is one that the tag and its handler both take.
def Conforms (tag : Tag) (a : ResolvedAttribute) : Prop :=
  a.contract = tag.find? a.qualifiedName ∧ OneDialect a.value ∧
    match a.contract with
    | some contract => Meets contract a.value
    | none => tag.dynamicAttributes = true ∧ tag.capabilities.dynamicAttributes = true

variable {x : Context} {id : Nat} {s : Supplied} {p : Policy} {v : AttributeValue}

theorem Classified.oneDialect (h : Classified x id s p v) : OneDialect v := by
  intro text parts dialect hv
  cases h with
  | expression _ _ _ _ hdialects =>
    cases hv
    obtain ⟨hself, hother⟩ := Composite.uses_of_dialects_eq hdialects
    refine ⟨Composite.uses_iff.mp hself, fun d source tree offset hpart => ?_⟩
    exact hother d (Composite.uses_iff.mpr ⟨source, tree, offset, hpart⟩)
  | named | scripting | literal => cases hv

theorem Classified.eq_named {n : NodeId} (h : Classified x id s p v) (hs : s.given = .inr n) :
    v = .named n := by
  cases h with
  | named hgiven =>
    rw [hs] at hgiven
    cases hgiven
    rfl
  | scripting hgiven | literal hgiven | expression hgiven =>
    rw [hs] at hgiven
    cases hgiven

theorem Classified.meets {contract : AttributeContract}
    (h : Classified x id s (.ofContract contract) v) : Meets contract v := by
  cases h with
  | named hgiven => constructor <;> simp
  | scripting _ hfragment _ hruntime =>
    have hfragment : contract.fragment = false := hfragment
    constructor <;> simp [hfragment, show contract.runtimeExpression = true from hruntime]
  | literal _ hfragment _ _ _ hvoid =>
    have hfragment : contract.fragment = false := hfragment
    have hvoid : (contract.deferredMethod && contract.returnType == "void") = false := hvoid
    constructor <;> simp_all
  | @expression a o parts dialect _ hfragment _ _ hdialects himmediate hdeferred =>
    have hfragment : contract.fragment = false := hfragment
    refine ⟨by simp, ?_, ?_, by simp [hfragment], by simp⟩
    · rintro _ _ ⟨⟩
      exact himmediate rfl
    · rintro _ _ ⟨⟩
      obtain ⟨haccepts, hsingle⟩ := hdeferred rfl
      refine ⟨by simpa [Policy.ofContract] using haccepts, fun hmethod => ?_⟩
      obtain ⟨d, source, tree, offset, hparts⟩ :=
        Composite.parts_of_isSingleExpression (hsingle hmethod)
      obtain ⟨-, hother⟩ := Composite.uses_of_dialects_eq hdialects
      have hd : d = .deferred :=
        hother d (Composite.uses_iff.mpr ⟨source, tree, offset, by simp [hparts]⟩)
      exact ⟨source, tree, offset, hd ▸ hparts⟩

theorem resolveCustom_eq_ok {data : CustomAction} {a : ResolvedAttribute}
    (h : resolveCustom x id data s = .ok a) :
    a.qualifiedName = s.name ∧ a.mark = s.mark ∧ a.contract = data.tag.find? s.name ∧
      a.dynamic = a.contract.isNone ∧
      match a.contract with
      | some contract => Classified x id s (.ofContract contract) a.value
      | none => data.tag.dynamicAttributes = true ∧ Classified x id s .dynamic a.value := by
  unfold resolveCustom at h
  dsimp only at h
  split at h
  · cases h
  · rename_i policy hpolicy
    obtain ⟨value, hvalue, h⟩ := bind_eq_ok.mp h
    cases h
    refine ⟨rfl, rfl, rfl, rfl, ?_⟩
    have hvalue := classified_of_classify hvalue
    cases hcontract : data.tag.find? s.name with
    | some contract =>
      rw [hcontract] at hpolicy
      cases hpolicy
      exact hvalue
    | none =>
      rw [hcontract] at hpolicy
      dsimp only at hpolicy
      split at hpolicy
      · cases hpolicy
        exact ⟨‹_›, hvalue⟩
      · cases hpolicy

theorem classified_of_resolveCustom {data : CustomAction} {a : ResolvedAttribute}
    (h : resolveCustom x id data s = .ok a) : ∃ p, Classified x id s p a.value := by
  obtain ⟨-, -, -, -, hvalue⟩ := resolveCustom_eq_ok h
  split at hvalue
  · exact ⟨_, hvalue⟩
  · exact ⟨_, hvalue.2⟩

theorem fromTag_of_resolveCustom {data : CustomAction} {b : Attribute} {a : ResolvedAttribute}
    (h : resolveCustom x id data (.inline b) = .ok a) : FromTag b a := by
  obtain ⟨hname, hmark, -⟩ := resolveCustom_eq_ok h
  obtain ⟨p, hvalue⟩ := classified_of_resolveCustom h
  refine ⟨hname, hmark, ?_⟩
  generalize a.value = v at hvalue ⊢
  cases hvalue with
  | named hgiven => cases hgiven
  | scripting hgiven _ hcode =>
    cases hgiven
    exact ⟨hcode, rfl⟩
  | literal hgiven _ hcode hparse hdialects =>
    cases hgiven
    obtain ⟨text, htext⟩ := Composite.literalText_of_dialects_eq_nil hdialects
    exact ⟨hcode, _, _, hparse, by rw [htext]; rfl⟩
  | expression hgiven _ hcode hparse =>
    cases hgiven
    exact ⟨hcode, rfl, _, hparse⟩

-- By induction on the children: those that are no attributes supply nothing.
theorem fromElements_of_resolveCustom {data : CustomAction} {children : List NodeId}
    {attrs : List ResolvedAttribute}
    (h : List.Forall₂ (fun s a => resolveCustom x id data s = .ok a)
      (children.filterMap fun child =>
        match x.tree.kind child with
        | .named named => some ⟨named.name, x.tree.mark child, .inr child⟩
        | _ => none) attrs) :
    List.Forall₂ (FromElement x.tree) (children.filter fun c => (x.tree.kind c).isNamed) attrs := by
  induction children generalizing attrs with
  | nil =>
    cases h
    exact .nil
  | cons child children ih =>
    cases hk : x.tree.kind child with
    | named named =>
      simp only [List.filterMap_cons, hk] at h
      rw [List.filter_cons_of_pos (by rw [hk]; rfl)]
      cases h with
      | cons hfirst hrest =>
        refine .cons ?_ (ih hrest)
        obtain ⟨hname, hmark, -⟩ := resolveCustom_eq_ok hfirst
        obtain ⟨p, hvalue⟩ := classified_of_resolveCustom hfirst
        exact ⟨hvalue.eq_named rfl, hmark, named, hk, hname⟩
    | _ =>
      simp only [List.filterMap_cons, hk] at h
      rw [List.filter_cons_of_neg (by simp [hk, NodeKind.isNamed])]
      exact ih h

theorem PassedCustom.corresponds {data : CustomAction} {number : Nat} {f : Finding}
    (h : PassedCustom x id data number f) : Corresponds x.tree id f.attributes := by
  have hall := mapM_eq_ok.mp h.attributes
  rw [Supplied.ofNode] at hall
  generalize f.attributes = attrs at hall ⊢
  have htag := List.forall₂_take (x.tree.node id).attributes.length hall
  have hbody := List.forall₂_drop (x.tree.node id).attributes.length hall
  rw [List.take_left' (by simp), List.forall₂_map_left_iff] at htag
  rw [List.drop_left' (by simp)] at hbody
  exact ⟨_, _, (List.take_append_drop _ _).symm, htag.imp fun _ _ => fromTag_of_resolveCustom,
    fromElements_of_resolveCustom hbody⟩

theorem PassedCustom.names_eq {data : CustomAction} {number : Nat} {f : Finding}
    (h : PassedCustom x id data number f) :
    f.attributes.map ResolvedAttribute.qualifiedName =
      (Supplied.ofNode x.tree id).map Supplied.name := by
  have hall := mapM_eq_ok.mp h.attributes
  generalize Supplied.ofNode x.tree id = supplied at hall ⊢
  generalize f.attributes = attrs at hall ⊢
  induction hall with
  | nil => rfl
  | cons hfirst _ ih => rw [List.map_cons, List.map_cons, ih, (resolveCustom_eq_ok hfirst).1]

theorem PassedCustom.conforms {data : CustomAction} {number : Nat} {f : Finding}
    (h : PassedCustom x id data number f) {a : ResolvedAttribute} (ha : a ∈ f.attributes) :
    Conforms data.tag a := by
  obtain ⟨s, -, hs⟩ := mem_of_mapM_eq_ok h.attributes ha
  obtain ⟨hname, -, hcontract, -, hvalue⟩ := resolveCustom_eq_ok hs
  obtain ⟨p, hclassified⟩ := classified_of_resolveCustom hs
  refine ⟨by rw [hcontract, hname], hclassified.oneDialect, ?_⟩
  cases hc : a.contract with
  | some contract =>
    rw [hc] at hvalue
    exact hvalue.meets
  | none =>
    rw [hc] at hvalue
    exact ⟨hvalue.1, h.dynamic hvalue.1⟩

end Checking

open Checking

-- In a page that has passed all checks the attributes found for a custom action are those of its
-- tag and then those given as elements, one for one and in their order, no two of the same name.
-- One without a contract is there only where the tag and its handler take such attributes, and the
-- value of one with a contract is of a kind that the contract accepts.
theorem CheckedPage.attributes_ofUnit {o : Options} {loader : Loader}
    {resolver resolver' : Resolver} {name : String} {c : CheckedPage}
    (h : CheckedPage.ofUnit o loader resolver name = (.ok c, resolver')) {id : NodeId}
    {data : CustomAction} (hk : c.page.tree.kind id = .custom data) :
    Corresponds c.page.tree id (c.findings.get id).attributes ∧
      ((c.findings.get id).attributes.map ResolvedAttribute.qualifiedName).Nodup ∧
      ∀ a ∈ (c.findings.get id).attributes, Conforms data.tag a := by
  obtain ⟨page, hread, hcheck⟩ := ofUnit_eq_ok h
  have ht := Page.arranged_read hread
  obtain ⟨rfl, hestablished⟩ := Page.check_established hcheck fun id hid =>
    ht.wellFormed.lt_size_of_mem_preorder hid
  have hself := hestablished id (Page.mem_preorder_of_custom ht hk)
  rw [Established, show (c.context o).tree.kind id = .custom data from hk] at hself
  obtain ⟨number, hself⟩ := hself
  have hpassed := checkCustom_eq_ok hself
  refine ⟨hpassed.corresponds, ?_, fun a ha => hpassed.conforms ha⟩
  rw [hpassed.names_eq]
  exact hpassed.distinct

-- An action with an attribute of every kind, which takes others as well.
def contractLibrary : Library :=
  { uri := "urn:sample", shortName := "sample"
    tags := [
      { name := "form", handlerClass := "sample.FormTag", dynamicAttributes := true
        capabilities := { dynamicAttributes := true }
        attributes := [
          { name := "title", runtimeExpression := true },
          { name := "submit", deferredMethod := true
            methodSignature := some "java.lang.String submit()" },
          { name := "row", fragment := true }] }] }

def contractUnits : Loader :=
  .ofUnits
    [("main.page", Text.Utf8.ofString
      ("<%@ taglib prefix=\"s\" uri=\"urn:sample\" %>" ++
        "<s:form title=\"${a} b\" submit=\"#{c.d}\" x:y=\"z\">" ++
        "<jsp:attribute name=\"row\">r</jsp:attribute></s:form>"))]

theorem CheckedPage.attributes_ofUnit_sample :
    ∃ c resolver id data, CheckedPage.ofUnit {} contractUnits (.ofLibraries [contractLibrary])
        "main.page" = (.ok c, resolver) ∧
      c.page.tree.kind id = .custom data ∧
      (c.findings.get id).attributes.map (fun a => (a.qualifiedName, a.value.kindName)) =
        [("title", "expression"), ("submit", "expression"), ("x:y", "literal"),
          ("row", "named")] ∧
      Corresponds c.page.tree id (c.findings.get id).attributes ∧
      ∀ a ∈ (c.findings.get id).attributes, Conforms data.tag a := by
  have hrun : (CheckedPage.ofUnit {} contractUnits (.ofLibraries [contractLibrary])
      "main.page").1.toOption.any (fun c => (c.page.tree.kind 2).custom?.isSome &&
        (c.findings.get 2).attributes.map (fun a => (a.qualifiedName, a.value.kindName)) ==
          [("title", "expression"), ("submit", "expression"), ("x:y", "literal"),
            ("row", "named")]) = true := by
    rw [contractUnits, Text.Utf8.ofString_append, Text.Utf8.ofString_append]
    repeat rw [Text.Utf8.ofString_ofList]
    decide +kernel
  obtain ⟨c, resolver, h, htest⟩ := Page.of_any hrun
  rw [Bool.and_eq_true, beq_iff_eq] at htest
  obtain ⟨hcustom, hkinds⟩ := htest
  obtain ⟨data, hdata⟩ := Option.isSome_iff_exists.mp hcustom
  have hk := NodeKind.custom?_eq_some.mp hdata
  obtain ⟨hcorresponds, -, hconforms⟩ := attributes_ofUnit h hk
  exact ⟨c, resolver, 2, data, h, hk, hkinds, hcorresponds, hconforms⟩

end PageCompiler
