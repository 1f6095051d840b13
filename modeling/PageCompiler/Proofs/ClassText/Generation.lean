import PageCompiler.Compilation
import PageCompiler.Proofs.ClassText.Bodies
import PageCompiler.Proofs.Reading.Pages

-- The generator comes only to nodes that were checked, so that every custom action has its handler;
-- what can still stop it is a method whose signature was never looked at.
namespace PageCompiler

namespace ClassText

-- From a node to the children of a body that is generated for it.
def Leads (x : Context) (id child : NodeId) : Prop :=
  ∃ host ∈ bodies x id, child ∈ x.tree.children host

-- The nodes that the generator comes to.
def Visits (x : Context) : NodeId → Prop := Relation.ReflTransGen (Leads x) Tree.root

-- The condition of a subtree, down to as many levels as there is fuel for.
def Passes (x : Context) : Nat → NodeId → Prop
  | 0, _ => True
  | fuel + 1, id =>
    Legible x id ∧ ∀ host ∈ bodies x id, ∀ child ∈ x.tree.children host, Passes x fuel child

variable {x : Context}

namespace Annotated

variable (hx : Annotated x)
include hx

theorem leads {id child : Nat} (hid : id ∈ x.tree.preorder) (h : Leads x id child) :
    child ∈ x.tree.preorder ∧ id < child := by
  obtain ⟨host, hhost, hchild⟩ := h
  obtain ⟨hmem, hle⟩ := hx.mem_bodies hid hhost
  exact ⟨hx.wellFormed.child_mem_preorder hmem hchild,
    Nat.lt_of_le_of_lt hle (hx.wellFormed.child_lt hchild).1⟩

theorem visits_mem_preorder {id : Nat} (h : Visits x id) : id ∈ x.tree.preorder := by
  induction h with
  | refl => exact hx.wellFormed.root_mem_preorder
  | tail _ hstep ih => exact (hx.leads ih hstep).1

theorem outcome_subtreeCode (fuel : Nat) (scope : Scope) {id : Nat} (hid : id ∈ x.tree.preorder) :
    Outcome (Passes x fuel id) (subtreeCode x fuel scope id) := by
  induction fuel generalizing scope id with
  | zero => exact .pure _
  | succ fuel ih =>
    refine outcome_nodeCode (B := fun n => ∀ c ∈ x.tree.children n, Passes x fuel c) hx ?_ hid scope
    intro scope n hn
    refine .before (.mapM fun c hc => ?_) fun _ => .pure _
    exact ih scope (hx.wellFormed.child_mem_preorder hn hc)

-- Numbers grow on every way down, so that the fuel of the whole tree is enough.
theorem passes_iff (fuel : Nat) {id : Nat} (hid : id ∈ x.tree.preorder)
    (hfuel : x.tree.size ≤ id + fuel) :
    Passes x fuel id ↔ ∀ n, Relation.ReflTransGen (Leads x) id n → Legible x n := by
  induction fuel generalizing id with
  | zero =>
    have hlt := hx.wellFormed.lt_size_of_mem_preorder hid
    omega
  | succ fuel ih =>
    have hnext : ∀ {c : Nat}, Leads x id c →
        (Passes x fuel c ↔ ∀ n, Relation.ReflTransGen (Leads x) c n → Legible x n) := by
      intro c hc
      obtain ⟨hmem, hlt⟩ := hx.leads hid hc
      exact ih hmem (by omega)
    constructor
    · rintro ⟨hself, hbelow⟩ n hn
      rcases Relation.ReflTransGen.cases_head hn with rfl | ⟨c, hc, hcn⟩
      · exact hself
      · obtain ⟨host, hhost, hchild⟩ := hc
        exact (hnext ⟨host, hhost, hchild⟩).mp (hbelow host hhost c hchild) n hcn
    · intro h
      refine ⟨h id .refl, fun host hhost c hchild => ?_⟩
      have hc : Leads x id c := ⟨host, hhost, hchild⟩
      exact (hnext hc).mpr fun n hn => h n (.head hc hn)

theorem outcome_pageCode : Outcome (∀ id, Visits x id → Legible x id) (pageCode x) := by
  have hroot := hx.wellFormed.root_mem_preorder
  exact (hx.outcome_subtreeCode _ _ hroot).congr (hx.passes_iff _ hroot (by omega))

end Annotated
end ClassText

open ClassText

theorem CheckedPage.annotated {o : Options} {loader : Loader} {resolver resolver' : Resolver}
    {name : String} {c : CheckedPage}
    (h : CheckedPage.ofUnit o loader resolver name = (.ok c, resolver')) :
    Annotated ⟨o, c⟩ := by
  obtain ⟨page, hread, hcheck⟩ := CheckedPage.ofUnit_eq_ok h
  have hwell := Page.wellFormed_read hread
  obtain ⟨rfl, hest⟩ := Page.check_established hcheck fun id hid =>
    hwell.lt_size_of_mem_preorder hid
  exact ⟨hwell, hest⟩

-- The class is put together around the statements of the page, which never fails.
theorem CheckedPage.generate_of_pageCode (c : CheckedPage) (o : Options) :
    (∀ {r}, pageCode ⟨o, c⟩ {} = .ok r → ∃ p, c.generate o = .ok p) ∧
      ∀ {d}, pageCode ⟨o, c⟩ {} = .error d → c.generate o = .error d := by
  unfold generate
  refine ⟨fun hr => ?_, fun hd => ?_⟩
  · simp only [StateT.run, hr]
    exact ⟨_, rfl⟩
  · simp only [StateT.run, hd]
    rfl

-- A page that has passed all checks is generated unless the generator comes to a custom action with
-- an attribute for a deferred method whose signature has its parentheses crossed. Nothing else
-- stops it, and no action it comes to lacks its handler.
theorem CheckedPage.generate_ofUnit {o : Options} {loader : Loader}
    {resolver resolver' : Resolver} {name : String} {c : CheckedPage}
    (h : CheckedPage.ofUnit o loader resolver name = (.ok c, resolver')) :
    ((∃ p, c.generate o = .ok p) ↔ ∀ id, Visits ⟨o, c⟩ id → Legible ⟨o, c⟩ id) ∧
      (∀ d, c.generate o = .error d → ∃ signature, d = crossed signature) ∧
      ∀ id data, Visits ⟨o, c⟩ id → c.page.tree.kind id = .custom data →
        ∃ handler, (c.findings.get id).instanceId = some handler := by
  have hx := annotated h
  have hcode := hx.outcome_pageCode
  obtain ⟨hok, herror⟩ := generate_of_pageCode c o
  refine ⟨⟨?_, ?_⟩, ?_, ?_⟩
  · rintro ⟨p, hp⟩
    by_contra hn
    obtain ⟨signature, hs⟩ := hcode.error hn {}
    rw [herror hs] at hp
    cases hp
  · intro hall
    obtain ⟨r, hr⟩ := hcode.ok hall {}
    exact hok hr
  · intro d hd
    by_cases hall : ∀ id, Visits ⟨o, c⟩ id → Legible ⟨o, c⟩ id
    · obtain ⟨r, hr⟩ := hcode.ok hall {}
      obtain ⟨p, hp⟩ := hok hr
      rw [hp] at hd
      cases hd
    · obtain ⟨signature, hs⟩ := hcode.error hall {}
      rw [herror hs] at hd
      exact ⟨signature, (Except.error.inj hd).symm⟩
  · intro id data hid hk
    exact hx.instanceId (hx.visits_mem_preorder hid) hk

-- A library with an action that takes a method, and a page that gives the method as a literal.
def crossedLibrary : Library :=
  { uri := "urn:sample", shortName := "sample"
    tags := [
      { name := "call", handlerClass := "sample.CallTag"
        attributes := [
          { name := "method", deferredMethod := true
            methodSignature := some "java.lang.String run)(" }] }] }

def crossedUnits : Loader :=
  .ofUnits
    [("main.page", Text.Utf8.ofString
      "<%@ taglib prefix=\"s\" uri=\"urn:sample\" %><s:call method=\"go\"/>")]

-- The page passes all checks, and the generator stops at its action.
theorem CheckedPage.generate_ofUnit_crossed :
    ∃ c resolver, CheckedPage.ofUnit {} crossedUnits (.ofLibraries [crossedLibrary]) "main.page" =
        (.ok c, resolver) ∧
      (¬∃ p, c.generate {} = .ok p) ∧ ¬∀ id, Visits ⟨{}, c⟩ id → Legible ⟨{}, c⟩ id := by
  have hrun : (CheckedPage.ofUnit {} crossedUnits (.ofLibraries [crossedLibrary])
      "main.page").1.toOption.any (fun c => (c.generate {}).toOption.isNone) = true := by
    rw [crossedUnits, Text.Utf8.ofString_ofList]
    decide +kernel
  obtain ⟨c, resolver, h, hnone⟩ := Page.of_any hrun
  have hfails : ¬∃ p, c.generate {} = .ok p := by
    rintro ⟨p, hp⟩
    rw [hp] at hnone
    cases hnone
  exact ⟨c, resolver, h, hfails, fun hall => hfails ((generate_ofUnit h).1.mpr hall)⟩

end PageCompiler
