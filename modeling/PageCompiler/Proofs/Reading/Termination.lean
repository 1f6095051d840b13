import PageCompiler.Proofs.Expression.Depth
import PageCompiler.Proofs.Reading.Agreement
import PageCompiler.Proofs.Reading.PageFaults
import PageCompiler.Proofs.Reading.UnitNames
import Mathlib.Data.List.Perm.Subperm
import Mathlib.Logic.Function.Iterate

-- Units are read down to a limited depth, and the loops over their text have limits of their own.
-- No limit is ever met: the units that are being read have different names, and every loop uses up
-- text.
namespace PageCompiler

open Text

-- Unrolled to the given depth or deeper, a recursion has one answer, whatever stands in for the
-- calls that are left there. So it never comes to make one of them.
def Settles {α β : Type} (level : α → α) (depth : Nat) (see : α → β) (answer : β) : Prop :=
  ∀ (more : Nat) (left : α), see (level^[depth + more] left) = answer

namespace Relaxed

open Builder

variable {includeUnit : Includer} {root : NodeId} {b : Builder} {s : State}

-- One step of a unit; `rest` goes on behind it.
def runLevel (includeUnit : Includer) (root : NodeId) (rest : State → BuildM Unit) (s : State) :
    BuildM Unit := do
  match ← step includeUnit root s with
  | some next => rest next
  | none => return

theorem run_succ (fuel : Nat) :
    run includeUnit root (fuel + 1) = runLevel includeUnit root (run includeUnit root fuel) := rfl

-- By induction on the steps: each one leaves less text than there are steps left.
theorem iterate_runLevel {n fuel : Nat} (left : State → BuildM Unit)
    (hn : s.cursor.rest.length < n) (hfuel : s.cursor.rest.length < fuel) :
    (runLevel includeUnit root)^[n] left s b = run includeUnit root fuel s b := by
  induction n generalizing s b fuel with
  | zero => omega
  | succ n ih =>
    obtain ⟨fuel, rfl⟩ := Nat.exists_eq_add_one_of_ne_zero (Nat.ne_zero_of_lt hfuel)
    rw [Function.iterate_succ_apply', run_succ]
    refine BuildM.bind_congr rfl fun next b₁ hstep => ?_
    cases next with
    | none => rfl
    | some s' =>
      have hlt := (leads_step hstep).2
      exact ih (by omega) (by omega)

theorem settles_read (includeUnit : Includer) (root : NodeId) (unit : String) (text : List Char)
    (b : Builder) :
    Settles (runLevel includeUnit root) (text.length + 1) (· (.start (.ofText unit text)) b)
      (read includeUnit root unit text b) := by
  intro more left
  have hlen : (State.start (.ofText unit text)).cursor.rest.length = text.length := rfl
  exact iterate_runLevel left (by omega) (by omega)

-- One attribute, or the end of them; `rest` goes on behind it.
def attributesLevel (ends : List String) (start : Mark)
    (rest : Cursor → BuildM (List Attribute × String × Cursor)) (c : Cursor) :
    BuildM (List Attribute × String × Cursor) := do
  let c := c.skipBlanks
  match metEnd? ends c with
  | some (e, behind) => return ([], e, behind)
  | none =>
    if c.atEnd then fail (.unterminated "tag") start
    let (a, behind) ← readAttribute c
    let (rest, e, behind) ← rest behind
    return (a :: rest, e, behind)

theorem readAttributesFrom_succ (ends : List String) (start : Mark) (fuel : Nat) :
    readAttributesFrom ends start (fuel + 1) =
      attributesLevel ends start (readAttributesFrom ends start fuel) := rfl

theorem iterate_attributesLevel {ends : List String} {start : Mark} {n fuel : Nat} {c : Cursor}
    (left : Cursor → BuildM (List Attribute × String × Cursor)) (hn : c.rest.length < n)
    (hfuel : c.rest.length < fuel) :
    (attributesLevel ends start)^[n] left c b = readAttributesFrom ends start fuel c b := by
  induction n generalizing c b fuel with
  | zero => omega
  | succ n ih =>
    obtain ⟨fuel, rfl⟩ := Nat.exists_eq_add_one_of_ne_zero (Nat.ne_zero_of_lt hfuel)
    rw [Function.iterate_succ_apply', readAttributesFrom_succ]
    unfold attributesLevel
    cases metEnd? ends c.skipBlanks with
    | some found => rfl
    | none =>
      dsimp only
      split
      · exact BuildM.bind_congr rfl fun _ _ hfail => absurd hfail fail_ne_ok
      · refine BuildM.bind_congr rfl fun first b₁ hfirst => ?_
        obtain ⟨a, c₁⟩ := first
        have hle := (Cursor.leads_skipBlanks c).length_le
        have hlt := (readAttribute_eq_ok hfirst).2.2.1
        have hrest : (attributesLevel ends start)^[n] left c₁ b₁ =
            readAttributesFrom ends start fuel c₁ b₁ := ih (by omega) (by omega)
        exact BuildM.bind_congr hrest fun _ _ _ => rfl

theorem settles_readAttributes (ends : List String) (start : Mark) (c : Cursor) (b : Builder) :
    Settles (attributesLevel ends start) (c.rest.length + 1) (· c b)
      (readAttributes ends start c b) :=
  fun _ left => iterate_attributesLevel left (by omega) (by omega)

end Relaxed

namespace Page

open Builder

variable {o : Options} {all : List (String × Utf8.Bytes)} {r r' : UnitReader} {depth : Nat}
  {b : Builder}

-- The units that are being read, when `depth` more can be read inside of them: they are different
-- units, and not that many more are left.
structure Nested (all : List (String × Utf8.Bytes)) (depth : Nat) (units : List String) : Prop where
  nodup : units.Nodup
  subset : units ⊆ all.map Prod.fst
  room : all.length < depth + units.length

theorem Nested.cons {units : List String} {unit : String} (h : Nested all (depth + 1) units)
    (hnew : unit ∉ units) (hunit : unit ∈ all.map Prod.fst) : Nested all depth (unit :: units) where
  nodup := List.nodup_cons.mpr ⟨hnew, h.nodup⟩
  subset := List.cons_subset.mpr ⟨hunit, h.subset⟩
  room := by
    have hroom := h.room
    rw [List.length_cons]
    omega

-- There are no more different names than units.
theorem not_nested_zero (units : List String) : ¬Nested all 0 units := by
  intro h
  have hle := (List.subperm_of_subset h.nodup h.subset).length_le
  have hroom := h.room
  rw [List.length_map] at hle
  omega

-- Two readers do the same on every unit that can be met at this depth.
def SameReads (all : List (String × Utf8.Bytes)) (depth : Nat) (r r' : UnitReader) : Prop :=
  ∀ (root : NodeId) (unit : String) (text : List Char) (form : UnitForm) (b : Builder),
    Nested all depth (unit :: b.units) → Inside { b with units := unit :: b.units } root →
      r root unit text form b = r' root unit text form b

theorem includeUnit_congr (hr : SameReads all depth r r') {origin : UnitOrigin} {parent : NodeId}
    (hopen : Open b origin parent) (hunits : Nested all (depth + 1) b.units) (target : String)
    (mark : Mark) :
    includeUnit o (.memory all) r parent target origin mark b =
      includeUnit o (.memory all) r' parent target origin mark b := by
  unfold includeUnit
  refine BuildM.bind_congr rfl fun entered b₂ henter => ?_
  obtain ⟨root, unit, text, form⟩ := entered
  obtain ⟨hnew, ⟨base, hname⟩, data, b₁, ⟨⟨bytes, hload, -⟩, -⟩, rfl, rfl, rfl, hquiet, happend⟩ :=
    enterUnit_eq_ok henter
  have hb₁ := hquiet.toAdvances
  have hunits₂ : b₂.units = b.units := by
    rw [(append_eq_ok happend).2]
    exact hb₁.units_eq
  have hunit : data.unit ∈ all.map Prod.fst :=
    Loader.mem_of_load hload (by rw [hname, UnitName.normalize_resolve])
  have hnested : Nested all depth (data.unit :: b₂.units) := by
    rw [hunits₂]
    exact hunits.cons hnew hunit
  have hread := hr root data.unit text data.form b₂ hnested ((hopen.advance hb₁).inside_root happend)
  exact BuildM.bind_congr hread fun _ _ _ => rfl

theorem readLevel_congr (hr : SameReads all depth r r') (hreads : Reads r) :
    SameReads all (depth + 1) (readLevel o (.memory all) r) (readLevel o (.memory all) r') := by
  intro root unit text form b hnested hin
  have hi : Includes (includeUnit o (.memory all) r) :=
    fun h hin => includeUnit_advances hreads h (.of_inside hin)
  have hsame : SameIncludes (unit :: b.units) (includeUnit o (.memory all) r)
      (includeUnit o (.memory all) r') :=
    fun _ target mark _ hunits hin =>
      includeUnit_congr hr (.of_inside hin) (hunits ▸ hnested) target mark
  refine BuildM.bind_congr rfl fun _ _ hget => ?_
  cases hget
  refine BuildM.bind_congr rfl fun _ _ henter => ?_
  cases henter
  cases form with
  | relaxed =>
    have hplaced := Relaxed.placed_start text hin rfl
    exact BuildM.bind_congr (Relaxed.run_congr hi hsame _ hplaced) fun _ _ _ => rfl
  | strict =>
    refine BuildM.bind_congr ?_ fun _ _ _ => rfl
    exact Strict.readDocument_congr hi hsame _ (Strict.placed_start hin rfl)

-- By induction on the depth: at depth zero there is no unit left that could be read.
theorem sameReads_iterate (o : Options) (all : List (String × Utf8.Bytes)) (depth : Nat)
    (left : UnitReader) :
    SameReads all depth (readUnit o (.memory all) depth)
      ((readLevel o (.memory all))^[depth] left) := by
  induction depth with
  | zero => exact fun _ _ _ _ _ hnested => absurd hnested (not_nested_zero _)
  | succ depth ih =>
    rw [Function.iterate_succ_apply']
    exact readLevel_congr ih (reads_readUnit o _ depth)

theorem forIn_congr (hr : SameReads all depth r r') (hreads : Reads r) {origin : UnitOrigin}
    {mark : Mark} {names : List String} (hopen : Open b origin Tree.root)
    (hunits : Nested all (depth + 1) b.units) :
    (forIn names PUnit.unit fun name _ => do
      discard (includeUnit o (.memory all) r Tree.root name origin mark)
      pure (ForInStep.yield PUnit.unit) : BuildM PUnit) b =
    (forIn names PUnit.unit fun name _ => do
      discard (includeUnit o (.memory all) r' Tree.root name origin mark)
      pure (ForInStep.yield PUnit.unit) : BuildM PUnit) b := by
  induction names generalizing b with
  | nil => rw [List.forIn_nil, List.forIn_nil]
  | cons name names ih =>
    rw [List.forIn_cons, List.forIn_cons]
    have hone := BuildM.discard_congr (includeUnit_congr (o := o) hr hopen hunits name mark)
    refine BuildM.bind_congr (BuildM.bind_congr hone fun _ _ _ => rfl) fun _ b₁ h => ?_
    obtain ⟨_, b₂, hinclude, h⟩ := BuildM.bind_eq_ok.mp h
    obtain ⟨root, hinclude⟩ := BuildM.discard_eq_ok hinclude
    cases h
    have hb := includeUnit_advances hreads hinclude hopen
    exact ih (hopen.advance hb) (hb.units_eq ▸ hunits)

theorem readAll_congr (hr : SameReads all depth r r') (hreads : Reads r) {unit : String}
    {text : List Char} {form : UnitForm} (hdepth : all.length < depth + 1)
    (hin : Inside { b with units := unit :: b.units } Tree.root) (hunits : b.units = [])
    (hunit : unit ∈ all.map Prod.fst) :
    readAll o (.memory all) r unit text form b = readAll o (.memory all) r' unit text form b := by
  have hnone : Nested all (depth + 1) b.units := by
    rw [hunits]
    exact ⟨List.nodup_nil, List.nil_subset _, by simp; omega⟩
  have hopen : ∀ {origin : UnitOrigin}, origin ≠ .included → Open b origin Tree.root :=
    Open.of_page hin hunits
  refine BuildM.bind_congr (forIn_congr hr hreads (hopen (by decide)) hnone)
    fun _ b₁ hprelude => ?_
  have hb₁ := forIn_advances hreads hprelude (hopen (by decide))
  have hin₁ := inside_advance hin hb₁
  have hnested : Nested all depth (unit :: b₁.units) := by
    rw [hb₁.units_eq]
    exact hnone.cons (by simp [hunits]) hunit
  refine BuildM.bind_congr (hr _ _ _ _ _ hnested hin₁) fun _ b₂ hread => ?_
  have hb₂ := hb₁.trans (hreads hread hin₁)
  have hopen₂ : Open b₂ .coda Tree.root := (hopen (by decide)).advance hb₂
  have hnone₂ : Nested all (depth + 1) b₂.units := by
    rw [hb₂.units_eq]
    exact hnone
  exact BuildM.bind_congr (forIn_congr hr hreads hopen₂ hnone₂) fun _ _ _ => rfl

theorem readWith_congr (hr : SameReads all depth r r') (hreads : Reads r)
    (hdepth : all.length < depth + 1) (resolver : Resolver) (name : String) :
    readWith o (.memory all) r resolver name = readWith o (.memory all) r' resolver name := by
  simp only [readWith, bind, Except.bind, EStateM.run]
  cases hload : (Loader.memory all).load (UnitName.normalize name) with
  | error d => dsimp only
  | ok bytes =>
    have hunit := Loader.mem_of_load hload (UnitName.normalize_normalize name)
    dsimp only
    cases Encoding.decode (UnitName.normalize name) bytes o.pageEncoding o.defaultEncoding with
    | error d => dsimp only
    | ok decoded =>
      dsimp only
      rw [readAll_congr hr hreads hdepth ?_ ?_ hunit]
      · exact inside_ofRoot o resolver rfl _
      · rfl

theorem settles_read (o : Options) (all : List (String × Utf8.Bytes)) (resolver : Resolver)
    (name : String) :
    Settles (readLevel o (.memory all)) (all.length + 1)
      (fun reader => readWith o (.memory all) reader resolver name)
      (read o (.memory all) resolver name) := by
  intro more left
  rw [Function.iterate_add_apply]
  exact (readWith_congr (sameReads_iterate o all (all.length + 1) _) (reads_readUnit o _ _)
    (by omega) resolver name).symm

-- Whatever the units are and however they include each other, reading a page comes to an end: units
-- are read inside of each other no deeper than there are units, the text of a unit and the
-- attributes of a tag are read in no more steps than they have characters, and an expression is no
-- deeper than it is long. In a page that has been read, the units around a node differ. A failure
-- is reported unless a document that starts with a byte order mark is cut inside of a character.
theorem read_terminates (units : List (String × Utf8.Bytes)) (o : Options) (resolver : Resolver)
    (name : String) :
    Settles (readLevel o (.ofUnits units)) (units.length + 1)
      (fun reader => readWith o (.ofUnits units) reader resolver name)
      (read o (.ofUnits units) resolver name) ∧
    (∀ includeUnit root unit text b,
      Settles (Relaxed.runLevel includeUnit root) (text.length + 1)
        (fun run => run (.start (.ofText unit text)) b)
        (Relaxed.read includeUnit root unit text b)) ∧
    (∀ ends start c b,
      Settles (Relaxed.attributesLevel ends start) (c.rest.length + 1)
        (fun attributes => attributes c b) (Relaxed.readAttributes ends start c b)) ∧
    (∀ s : List Char,
      Settles Expression.conditional (s.length + 1) (fun expression => expression s)
        (Expression.expression (s.length + 1) s)) ∧
    (∀ page resolver', read o (.ofUnits units) resolver name = (.ok page, resolver') →
      ∀ id < page.tree.size, (page.tree.unitsAround id).Nodup) ∧
    ∀ d resolver', read o (.ofUnits units) resolver name = (.error d, resolver') →
      d.fault.aborts = true → d.Splits o (.ofUnits units) := by
  refine ⟨?_, Relaxed.settles_read, Relaxed.settles_readAttributes,
    fun s _ left => Expression.iterate_conditional left (by omega) (by omega),
    fun page resolver' h => (arranged_read h).units_nodup,
    fun d resolver' h => splits_of_read h⟩
  have hcapacity : (Loader.ofUnits units).capacity = units.length := by
    rw [Loader.ofUnits, Loader.capacity, List.length_map, List.length_reverse]
  rw [← hcapacity]
  exact settles_read o _ resolver name

end Page

-- A page that includes a unit through another one, which is written in two ways.
def nestedUnits : List (String × Utf8.Bytes) :=
  [("main.page", Utf8.ofString "<%@ include file=\"part/left.page\" %>"),
    ("part/left.page", Utf8.ofString "a<%@ include file=\"../part/./right.page\" %>"),
    ("/part/right.page", Utf8.ofString "b")]

-- A document with a byte order mark in its text, and a verbatim body whose text starts three bytes
-- behind where its reader says, inside of a character.
def markedUnits : List (String × Utf8.Bytes) :=
  [("/main.pagx", Utf8.ofString
    "\uFEFF\uFEFF<r xmlns:x=\"urn:x\"><x:sql>éé</x:sql></r>")]

def sqlLibrary : Library :=
  { uri := "urn:x", shortName := "x"
    tags := [{ name := "sql", handlerClass := "sample.SqlTag", bodyContent := .verbatim }] }

-- The innermost node of the one page stands in three units. The other page is neither read nor
-- refused.
theorem Page.read_terminates_sample :
    (∃ page resolver, Page.read { prelude := ["part/right.page"] } (.ofUnits nestedUnits)
        (.ofLibraries []) "main.page" = (.ok page, resolver) ∧
      ∃ id < page.tree.size, (page.tree.unitsAround id).length = 3 ∧
        (page.tree.unitsAround id).Nodup) ∧
    ∃ d resolver, Page.read {} (.ofUnits markedUnits) (.ofLibraries [sqlLibrary]) "/main.pagx" =
        (.error d, resolver) ∧ d.fault.aborts = true ∧ d.Splits {} (.ofUnits markedUnits) := by
  constructor
  · have hrun : Page.passes { prelude := ["part/right.page"] } (.ofUnits nestedUnits)
        (.ofLibraries []) "main.page" (fun page =>
          (List.range page.tree.size).any fun id => (page.tree.unitsAround id).length == 3) := by
      rw [nestedUnits]
      repeat rw [Utf8.ofString_ofList]
      decide +kernel
    obtain ⟨page, resolver, h, hdepth⟩ := Page.of_passes hrun
    obtain ⟨id, hid, hthree⟩ := List.any_eq_true.mp hdepth
    have hlt := List.mem_range.mp hid
    obtain ⟨-, -, -, -, hnodup, -⟩ := Page.read_terminates nestedUnits
      { prelude := ["part/right.page"] } (.ofLibraries []) "main.page"
    exact ⟨page, resolver, h, id, hlt, beq_iff_eq.mp hthree, hnodup page resolver h id hlt⟩
  · obtain ⟨-, -, -, -, -, hsplits⟩ := Page.read_terminates markedUnits {}
      (.ofLibraries [sqlLibrary]) "/main.pagx"
    have hrun : (match (Page.read {} (.ofUnits markedUnits) (.ofLibraries [sqlLibrary])
        "/main.pagx").1 with
      | .ok _ => false
      | .error d => d.fault.aborts) = true := by
      rw [markedUnits, Utf8.ofString_ofList]
      decide +kernel
    generalize Page.read {} (.ofUnits markedUnits) (.ofLibraries [sqlLibrary]) "/main.pagx" = result
      at hrun hsplits ⊢
    obtain ⟨d | page, resolver⟩ := result
    · exact ⟨d, resolver, rfl, hrun, hsplits d resolver rfl hrun⟩
    · cases hrun

end PageCompiler
