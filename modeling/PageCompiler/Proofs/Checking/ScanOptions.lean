import PageCompiler.Proofs.Checking.Reconciling
import PageCompiler.Proofs.Page.Likeness

-- While a page is read, a page directive switches the options for the text behind it; afterwards
-- its settings hold for the whole page. Both are the same for text behind every directive that
-- tells one of these settings.
namespace PageCompiler

open Text
open Settings (isPageDirective)

namespace NodeKind.Trims

variable {k k' : NodeKind}

theorem isRoot_eq (h : k.Trims k') : k'.isRoot = k.isRoot := by
  cases h <;> rfl

theorem custom?_eq (h : k.Trims k') : k'.custom? = k.custom? := by
  cases h <;> rfl

theorem isPageDirective_eq (h : k.Trims k') : isPageDirective k' = isPageDirective k := by
  cases h <;> rfl

end NodeKind.Trims

-- What an attribute of a page directive says about expressions in text.
def ScanOptions.apply (o : ScanOptions) (a : Attribute) : ScanOptions :=
  match a.name with
  | "isELIgnored" => { o with ignoreExpressions := Text.isTrue a.value }
  | "deferredSyntaxAllowedAsLiteral" => { o with deferredAsLiteral := Text.isTrue a.value }
  | _ => o

namespace Tree

-- The options behind the first nodes, as their page directives have switched them.
def scanAt (t : Tree) (o : Options) : Nat → ScanOptions
  | 0 => { deferredAsLiteral := o.deferredAsLiteral, ignoreExpressions := o.elIgnored }
  | n + 1 =>
    if isPageDirective (t.kind n) then (t.node n).attributes.foldl ScanOptions.apply (t.scanAt o n)
    else t.scanAt o n

-- Whether a page directive among the first nodes has an attribute of the given name.
def sets (t : Tree) (name : String) (n : Nat) : Bool :=
  (List.range n).any fun id =>
    isPageDirective (t.kind id) && (t.node id).attributes.any fun a => a.name == name

-- The attributes that tell the options.
def scanNames : List String := ["isELIgnored", "deferredSyntaxAllowedAsLiteral"]

-- The options behind the first nodes in terms of the settings of the page: what has not been told
-- yet is as it has been configured.
def scanBehind (t : Tree) (o : Options) (s : Settings) (n : Nat) : ScanOptions where
  ignoreExpressions := if t.sets "isELIgnored" n then s.elIgnored else o.elIgnored
  deferredAsLiteral :=
    if t.sets "deferredSyntaxAllowedAsLiteral" n then s.deferredAsLiteral else o.deferredAsLiteral

theorem sets_eq_true {t : Tree} {name : String} {n : Nat} : t.sets name n ↔
    ∃ id < n, t.kind id = .pageDirective ∧ ∃ a ∈ (t.node id).attributes, a.name = name := by
  simp only [sets, List.any_eq_true, List.mem_range, Bool.and_eq_true,
    Settings.isPageDirective_iff, beq_iff_eq]

theorem sets_succ (t : Tree) (name : String) (n : Nat) : t.sets name (n + 1) =
    (t.sets name n ||
      isPageDirective (t.kind n) && (t.node n).attributes.any fun a => a.name == name) := by
  simp [sets, List.range_succ]

theorem scanAt_succ (t : Tree) (o : Options) (n : Nat) : t.scanAt o (n + 1) =
    if isPageDirective (t.kind n) then (t.node n).attributes.foldl ScanOptions.apply (t.scanAt o n)
    else t.scanAt o n := rfl

theorem scanAt_eq_of_extends {t u : Tree} (h : t.Extends u) (o : Options) {n : Nat}
    (hn : n ≤ t.size) : u.scanAt o n = t.scanAt o n := by
  induction n with
  | zero => rfl
  | succ n ih =>
    have hnode := h.node n hn
    have hpage : isPageDirective (u.kind n) = isPageDirective (t.kind n) :=
      hnode.kind.isPageDirective_eq
    rw [scanAt_succ, scanAt_succ, hpage, hnode.attributes_eq, ih (Nat.le_of_succ_le hn)]

theorem scanAt_eq_of_ne {t : Tree} (o : Options) {n : Nat} (k : Nat)
    (h : ∀ id, n ≤ id → id < n + k → t.kind id ≠ .pageDirective) :
    t.scanAt o (n + k) = t.scanAt o n := by
  induction k with
  | zero => rfl
  | succ k ih =>
    have hne := h (n + k) (Nat.le_add_right ..) (Nat.lt_succ_self _)
    rw [← Nat.add_assoc, scanAt_succ, if_neg (fun hpage => hne (Settings.isPageDirective_iff.mp hpage))]
    exact ih fun id hle hlt => h id hle (Nat.lt_succ_of_lt hlt)

end Tree

-- An option is what the attribute of the given name says.
def ScanOptions.Told (name : String) (get : ScanOptions → Bool) : Prop :=
  ∀ (scan : ScanOptions) (a : Attribute),
    get (scan.apply a) = if a.name = name then Text.isTrue a.value else get scan

theorem ScanOptions.apply_eq (scan : ScanOptions) (a : Attribute) :
    (scan.apply a).ignoreExpressions =
        (if a.name = "isELIgnored" then Text.isTrue a.value else scan.ignoreExpressions) ∧
      (scan.apply a).deferredAsLiteral =
        (if a.name = "deferredSyntaxAllowedAsLiteral" then Text.isTrue a.value
          else scan.deferredAsLiteral) := by
  unfold apply
  split
  · rename_i hname
    rw [hname]
    exact ⟨rfl, rfl⟩
  · rename_i hname
    rw [hname]
    exact ⟨rfl, rfl⟩
  · rename_i hignored hdeferred
    rw [if_neg hignored, if_neg hdeferred]
    exact ⟨rfl, rfl⟩

namespace ScanOptions.Told

variable {name : String} {get : ScanOptions → Bool} {v : Bool}

theorem foldl (h : Told name get) {attrs : List Attribute} (scan : ScanOptions)
    (hv : ∀ a ∈ attrs, a.name = name → Text.isTrue a.value = v) :
    get (attrs.foldl ScanOptions.apply scan) =
      if attrs.any (fun a => a.name == name) then v else get scan := by
  induction attrs generalizing scan with
  | nil => rfl
  | cons a attrs ih =>
    obtain ⟨ha, hattrs⟩ := List.forall_mem_cons.mp hv
    rw [List.foldl_cons, ih _ hattrs, List.any_cons, h]
    by_cases hname : a.name = name
    · simp [hname, ha hname]
    · simp [hname]

-- As long as the page directives agree, the last one that tells an option does not matter.
theorem scanAt (h : Told name get) {t : Tree} (o : Options) {n : Nat}
    (hv : ∀ id < n, t.kind id = .pageDirective → ∀ a ∈ (t.node id).attributes, a.name = name →
      Text.isTrue a.value = v) :
    get (t.scanAt o n) = if t.sets name n then v else get (t.scanAt o 0) := by
  induction n with
  | zero => rfl
  | succ n ih =>
    have hbefore := ih fun id hid => hv id (Nat.lt_succ_of_lt hid)
    rw [Tree.scanAt_succ, Tree.sets_succ]
    cases hpage : isPageDirective (t.kind n) with
    | false => simpa using hbefore
    | true =>
      have hkind := Settings.isPageDirective_iff.mp hpage
      rw [if_pos rfl, h.foldl _ (hv n (Nat.lt_succ_self n) hkind), hbefore]
      cases t.sets name n <;> simp

end ScanOptions.Told

theorem ScanOptions.told_ignoreExpressions : Told "isELIgnored" ignoreExpressions :=
  fun scan a => (scan.apply_eq a).1

theorem ScanOptions.told_deferredAsLiteral :
    Told "deferredSyntaxAllowedAsLiteral" deferredAsLiteral :=
  fun scan a => (scan.apply_eq a).2

-- No page directive stands below another one.
def Tree.Flat (t : Tree) : Prop :=
  ∀ id < t.size, ∀ p, t.parent id = some p → t.kind p ≠ .pageDirective

namespace Settings

variable {t : Tree} {o : Options} {s : Settings}

-- Every page directive of a flat page is taken up.
theorem mem_entered_of_flat (ht : t.WellFormed) (hflat : t.Flat) {id : Nat} (h : t.Reachable id) :
    id ∈ t.entered fun kind => !isPageDirective kind := by
  induction h with
  | refl => exact Tree.root_mem_entered ht _
  | @tail p c _ hc ih =>
    refine Tree.child_mem_entered ht _ ih ?_ hc
    have hne := hflat c (ht.child_lt hc).2 p (ht.parent_eq hc)
    rw [Bool.not_eq_true', Bool.eq_false_iff, ne_eq, isPageDirective_iff]
    exact hne

-- Behind all directives that tell an option it is what the settings of the page say.
theorem scanAt_eq_of_reconcile (ht : t.WellFormed) (hflat : t.Flat)
    (hreach : ∀ id < t.size, t.kind id = .pageDirective → t.Reachable id)
    (h : reconcile t o = .ok s) {n : Nat} (hn : n ≤ t.size) :
    t.scanAt o n = t.scanBehind o s n := by
  have hdirected : ∀ id < n, t.kind id = .pageDirective → ∀ a ∈ (t.node id).attributes,
      (⟨id, a⟩ : Tree.Declaration) ∈ t.directed := fun id hid hkind a ha =>
    Tree.mem_directed.mpr
      ⟨mem_entered_of_flat ht hflat (hreach id (hid.trans_le hn) hkind), hkind, ha⟩
  have hignored := ScanOptions.told_ignoreExpressions.scanAt o (v := s.elIgnored)
    fun id hid hkind a ha hname => ((value_of_reconcile governs_elIgnored h).1 _
      (hdirected id hid hkind a ha) hname).symm
  have hdeferred := ScanOptions.told_deferredAsLiteral.scanAt o (v := s.deferredAsLiteral)
    fun id hid hkind a ha hname => ((value_of_reconcile governs_deferredAsLiteral h).1 _
      (hdirected id hid hkind a ha) hname).symm
  cases hscan : t.scanAt o n with
  | mk deferred ignored =>
    rw [hscan] at hignored hdeferred
    rw [Tree.scanBehind, ScanOptions.mk.injEq]
    exact ⟨hdeferred, hignored⟩

-- Where everything has been told that is told at all, these are the settings of the page.
theorem scanBehind_eq_scan (ht : t.WellFormed) (h : reconcile t o = .ok s) {n : Nat}
    (hn : ∀ name ∈ Tree.scanNames, t.sets name t.size → t.sets name n) :
    t.scanBehind o s n = s.scan := by
  have hnone : ∀ name ∈ Tree.scanNames, t.sets name n = false →
      ∀ d ∈ t.directed, d.attr.name ≠ name := by
    intro name hmem hname d hd heq
    obtain ⟨hentered, hkind, ha⟩ := Tree.mem_directed.mp hd
    have hset := hn name hmem (Tree.sets_eq_true.mpr
      ⟨d.directive, Tree.lt_size_of_mem_entered ht _ hentered, hkind, d.attr, ha, heq⟩)
    rw [hname] at hset
    cases hset
  rw [Tree.scanBehind, scan, ScanOptions.mk.injEq]
  constructor
  · cases hset : t.sets "deferredSyntaxAllowedAsLiteral" n with
    | true => rfl
    | false =>
      exact ((value_of_reconcile governs_deferredAsLiteral h).2
        (hnone _ (by decide) hset)).symm
  · cases hset : t.sets "isELIgnored" n with
    | true => rfl
    | false =>
      exact ((value_of_reconcile governs_elIgnored h).2 (hnone _ (by decide) hset)).symm

end Settings

end PageCompiler
