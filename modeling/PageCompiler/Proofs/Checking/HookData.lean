import PageCompiler.Proofs.Checking.Contracts
import PageCompiler.Proofs.Checking.ExposedVariables
import PageCompiler.Proofs.Reading.Attributes
import Mathlib.Data.List.Induction

-- What hooks are told about the attributes of a custom action, and what its variables are named by.
-- It is kept by the part of a name behind its prefix, so that an attribute with a prefix takes the
-- place of a declared one when it stands behind it.
namespace PageCompiler

open Text

-- The part of a name behind its prefix.
def localPart (name : String) : String := ((cutString? ':' name).map Prod.snd).getD name

theorem localPart_of_not_mem {name : String} (h : ':' ∉ name.toList) : localPart name = name := by
  have hnone : splitOnce? ':' name.toList = none := by
    cases hsplit : splitOnce? ':' name.toList with
    | none => rfl
    | some cut =>
      rw [eq_of_splitOnce? hsplit] at h
      simp at h
  rw [localPart, cutString?, hnone]
  rfl

namespace Checking

-- What hooks are told about an attribute.
def datum : AttributeValue → TagDatum
  | .literal v => .literal v
  | _ => .requestTime

theorem datum_eq_literal_iff {value : AttributeValue} {v : String} :
    datum value = .literal v ↔ value = .literal v := by
  cases value <;> simp [datum]

theorem lookup_filter_ne {data : TagData} {name other : String} (h : other ≠ name) :
    (data.filter fun entry => entry.1 != name).lookup other = data.lookup other := by
  induction data with
  | nil => rfl
  | cons entry data ih =>
    rw [List.filter_cons, List.lookup_cons]
    by_cases hentry : entry.1 = name
    · rw [if_neg (by simp [hentry]), ih, hentry, beq_eq_false_iff_ne.mpr h]
    · rw [if_pos (by simp [hentry]), List.lookup_cons, ih]

theorem get?_insert (data : TagData) (name other : String) (d : TagDatum) :
    (data.insert name d).get? other = if other = name then some d else data.get? other := by
  unfold TagData.insert TagData.get?
  rw [List.lookup_cons]
  by_cases hname : other = name
  · rw [if_pos hname, beq_iff_eq.mpr hname]
  · rw [if_neg hname, beq_eq_false_iff_ne.mpr hname, lookup_filter_ne hname]

-- Among the attributes with one local name the last one counts.
theorem get?_tagData (attrs : List ResolvedAttribute) (name : String) :
    (tagData attrs).get? name =
      (attrs.reverse.find? fun a => name = a.name).map fun a => datum a.value := by
  induction attrs using List.reverseRecOn with
  | nil => rfl
  | append_singleton attrs a ih =>
    have hstep : tagData (attrs ++ [a]) = (tagData attrs).insert a.name (datum a.value) := by
      rw [tagData, List.foldl_append]
      rfl
    rw [hstep, get?_insert, ih, List.reverse_append, List.reverse_singleton, List.singleton_append,
      List.find?_cons]
    by_cases hname : name = a.name <;> simp [hname]

variable {attrs : List ResolvedAttribute}

theorem get?_tagData_eq_literal_iff {name v : String} :
    (tagData attrs).get? name = some (.literal v) ↔
      ∃ front, ∃ b : ResolvedAttribute, ∃ behind, attrs = front ++ b :: behind ∧ b.name = name ∧
        b.value = .literal v ∧ ∀ c ∈ behind, c.name ≠ name := by
  simp only [get?_tagData, Option.map_eq_some_iff, datum_eq_literal_iff,
    List.find?_eq_some_iff_append]
  constructor
  · rintro ⟨b, ⟨hname, behind, front, heq, hother⟩, hvalue⟩
    have hb : name = b.name := by simpa using hname
    refine ⟨front.reverse, b, behind.reverse, ?_, hb.symm, hvalue, fun c hc hsame => ?_⟩
    · rw [← List.reverse_reverse attrs, heq]
      simp
    · simpa [hsame] using hother c (List.mem_reverse.mp hc)
  · rintro ⟨front, b, behind, rfl, hname, hvalue, hother⟩
    refine ⟨b, ⟨by simpa using hname.symm, behind.reverse, front.reverse, by simp, fun c hc => ?_⟩,
      hvalue⟩
    have hsame : name ≠ c.name := (hother c (List.mem_reverse.mp hc)).symm
    simpa using hsame

-- Where no other attribute has the name of an attribute as its local name, this one counts.
theorem get?_tagData_of_unique {a : ResolvedAttribute} {name v : String} (ha : a ∈ attrs)
    (hname : a.name = name) (hvalue : a.value = .literal v)
    (hunique : ∀ b ∈ attrs, b.name = name → b = a) :
    (tagData attrs).get? name = some (.literal v) := by
  rw [get?_tagData]
  cases hfind : attrs.reverse.find? fun b => name = b.name with
  | none =>
    have hnone := List.find?_eq_none.mp hfind a (List.mem_reverse.mpr ha)
    exact absurd hname.symm (by simpa using hnone)
  | some b =>
    have hb := List.mem_reverse.mp (List.mem_of_find?_eq_some hfind)
    have hsame : name = b.name := by simpa using List.find?_some hfind
    rw [hunique b hb hsame.symm, Option.map_some, hvalue]
    rfl

theorem PassedCustom.name_eq {x : Context} {id : Nat} {data : CustomAction} {number : Nat}
    {f : Finding} (h : PassedCustom x id data number f) {a : ResolvedAttribute}
    (ha : a ∈ f.attributes) : a.name = localPart a.qualifiedName := by
  obtain ⟨s, -, hs⟩ := mem_of_mapM_eq_ok h.attributes ha
  rw [(resolveCustom_eq_ok hs).1]
  exact name_of_resolveCustom hs

end Checking

open Checking

-- In a page that has passed all checks every custom action passed its hook with what is told about
-- its attributes, and its variables are named by the same. Of a declared attribute with a literal
-- value this is the value exactly if the last of all attributes whose names are, behind their
-- prefixes, its name has that value; and so it is if the attribute has no prefix and no other one
-- has its name.
theorem CheckedPage.hookData_ofUnit {o : Options} {loader : Loader} {resolver resolver' : Resolver}
    {name : String} {c : CheckedPage}
    (h : CheckedPage.ofUnit o loader resolver name = (.ok c, resolver')) {id : NodeId}
    {data : CustomAction} (hk : c.page.tree.kind id = .custom data) :
    (∀ hook, data.tag.hook = some hook →
      hook.validate (tagData (c.findings.get id).attributes) = []) ∧
    (c.findings.get id).exposed =
      byScope (data.tag.exposedBy (tagData (c.findings.get id).attributes)) ∧
    ∀ a ∈ (c.findings.get id).attributes, ∀ v, a.contract.isSome → a.value = .literal v →
      ((tagData (c.findings.get id).attributes).get? a.qualifiedName = some (.literal v) ↔
        ∃ front b behind, (c.findings.get id).attributes = front ++ b :: behind ∧
          localPart b.qualifiedName = a.qualifiedName ∧ b.value = .literal v ∧
          ∀ b' ∈ behind, localPart b'.qualifiedName ≠ a.qualifiedName) ∧
      (':' ∉ a.qualifiedName.toList →
        (∀ b ∈ (c.findings.get id).attributes,
          localPart b.qualifiedName = a.qualifiedName → b = a) →
        (tagData (c.findings.get id).attributes).get? a.qualifiedName = some (.literal v)) := by
  obtain ⟨page, hread, hcheck⟩ := ofUnit_eq_ok h
  have ht := Page.arranged_read hread
  obtain ⟨rfl, hestablished⟩ := Page.check_established hcheck fun id hid =>
    ht.wellFormed.lt_size_of_mem_preorder hid
  have hself := hestablished id (Page.mem_preorder_of_custom ht hk)
  rw [Established, show (c.context o).tree.kind id = .custom data from hk] at hself
  obtain ⟨number, hself⟩ := hself
  have hpassed := checkCustom_eq_ok hself
  have hlocal : ∀ b ∈ (c.findings.get id).attributes, b.name = localPart b.qualifiedName :=
    fun b hb => hpassed.name_eq hb
  refine ⟨hpassed.valid, (exposedVariables_eq_ok_iff.mp hpassed.exposed).2.2,
    fun a ha v _ hvalue => ⟨?_, fun hplain hunique => ?_⟩⟩
  · rw [get?_tagData_eq_literal_iff]
    refine exists_congr fun front => exists_congr fun b => exists_congr fun behind =>
      and_congr_right fun heq => ?_
    have hb := hlocal b (heq ▸ List.mem_append_right _ (List.mem_cons_self ..))
    have hbehind : ∀ b' ∈ behind, b'.name = localPart b'.qualifiedName := fun b' hb' =>
      hlocal b' (heq ▸ List.mem_append_right _ (List.mem_cons_of_mem _ hb'))
    rw [hb]
    refine and_congr_right fun _ => and_congr_right fun _ => forall₂_congr fun b' hb' => ?_
    rw [hbehind b' hb']
  · refine get?_tagData_of_unique ha ?_ hvalue fun b hb hname => ?_
    · rw [hlocal a ha, localPart_of_not_mem hplain]
    · exact hunique b hb (hlocal b hb ▸ hname)

-- An action with a declared attribute that names a variable, and with others besides.
def namedVariableLibrary : Library :=
  { uri := "urn:sample", shortName := "sample"
    tags := [
      { name := "let", handlerClass := "sample.LetTag", dynamicAttributes := true
        capabilities := { dynamicAttributes := true }
        attributes := [{ name := "var" }]
        exposed := [{ nameFromAttribute := some "var" }] }] }

def namedVariableUnits : Loader :=
  .ofUnits
    [("main.page", Utf8.ofString
      "<%@ taglib prefix=\"s\" uri=\"urn:sample\" %><s:let var=\"a\" x:var=\"b\"/>")]

-- The variable is called what the attribute with the prefix says.
theorem CheckedPage.hookData_ofUnit_replaced :
    ∃ c resolver id data a, CheckedPage.ofUnit {} namedVariableUnits
        (.ofLibraries [namedVariableLibrary]) "main.page" = (.ok c, resolver) ∧
      c.page.tree.kind id = .custom data ∧ a ∈ (c.findings.get id).attributes ∧
      a.contract.isSome ∧ a.qualifiedName = "var" ∧ a.value = .literal "a" ∧
      (tagData (c.findings.get id).attributes).get? "var" ≠ some (.literal "a") ∧
      (c.findings.get id).exposed.nested.map Variable.name = ["b"] := by
  have hrun : (ofUnit {} namedVariableUnits (.ofLibraries [namedVariableLibrary])
      "main.page").1.toOption.any (fun c => (c.page.tree.kind 2).custom?.isSome &&
        (c.findings.get 2).attributes.map
            (fun a => (a.qualifiedName, a.contract.isSome, datum a.value)) ==
          [("var", true, .literal "a"), ("x:var", false, .literal "b")] &&
        (c.findings.get 2).exposed.nested.map Variable.name == ["b"]) = true := by
    rw [namedVariableUnits, Utf8.ofString_ofList]
    decide +kernel
  obtain ⟨c, resolver, h, htest⟩ := Page.of_any hrun
  simp only [Bool.and_eq_true, beq_iff_eq] at htest
  obtain ⟨⟨hcustom, hattributes⟩, hnested⟩ := htest
  obtain ⟨data, hdata⟩ := Option.isSome_iff_exists.mp hcustom
  have hk := NodeKind.custom?_eq_some.mp hdata
  obtain ⟨a, rest, hcons, ha, hrest⟩ := List.map_eq_cons_iff.mp hattributes
  obtain ⟨b, none, rfl, hb, hnone⟩ := List.map_eq_cons_iff.mp hrest
  obtain rfl := List.map_eq_nil_iff.mp hnone
  simp only [Prod.mk.injEq, datum_eq_literal_iff] at ha hb
  obtain ⟨hname, hcontract, hvalue⟩ := ha
  obtain ⟨hname', -, hvalue'⟩ := hb
  have hmem : a ∈ (c.findings.get 2).attributes := hcons ▸ List.mem_cons_self ..
  refine ⟨c, resolver, 2, data, a, h, hk, hmem, hcontract, hname, hvalue, fun htold => ?_, hnested⟩
  obtain ⟨-, -, hall⟩ := hookData_ofUnit h hk
  obtain ⟨front, b', behind, heq, -, hliteral, hlast⟩ :=
    (hall a hmem "a" hcontract hvalue).1.mp (hname ▸ htold)
  -- The attribute with the prefix stands behind the other one.
  have hlocal : localPart b.qualifiedName = a.qualifiedName := by
    rw [hname, hname']
    decide
  rw [hcons] at heq
  rcases List.eq_nil_or_concat behind with rfl | ⟨behind, b'', rfl⟩
  · obtain ⟨-, hsame⟩ := List.append_inj' (show [a] ++ [b] = front ++ [b'] from heq) rfl
    obtain rfl := List.singleton_inj.mp hsame
    rw [hvalue', AttributeValue.literal.injEq] at hliteral
    exact absurd hliteral (by decide)
  · have hends : [a] ++ [b] = (front ++ b' :: behind) ++ [b''] := by simpa using heq
    obtain ⟨-, hsame⟩ := List.append_inj' hends rfl
    obtain rfl := List.singleton_inj.mp hsame
    exact hlast b (by simp) hlocal

end PageCompiler
