import PageCompiler.Proofs.Checking.Established
import PageCompiler.Proofs.Page.Ancestry
import PageCompiler.Proofs.Page.Preorder

namespace PageCompiler

open Text

namespace Tree

open Settings (isPageDirective)

-- An attribute of a page directive, with its directive.
structure Declaration where
  directive : NodeId
  attr : Attribute

def directedOf (t : Tree) (id : NodeId) : List Declaration :=
  if isPageDirective (t.kind id) then (t.node id).attributes.map (⟨id, ·⟩) else []

theorem mem_directedOf {t : Tree} {id : NodeId} {d : Declaration} :
    d ∈ t.directedOf id ↔ d.directive = id ∧ t.kind id = .pageDirective ∧
      d.attr ∈ (t.node id).attributes := by
  unfold directedOf
  cases hkind : t.kind id with
  | pageDirective =>
    simp only [isPageDirective, if_true, List.mem_map, true_and]
    constructor
    · rintro ⟨a, ha, rfl⟩
      exact ⟨rfl, ha⟩
    · rintro ⟨rfl, ha⟩
      exact ⟨d.attr, ha, rfl⟩
  | _ => simp [isPageDirective]

-- In document order. Nothing below a page directive is looked at.
def directed (t : Tree) : List Declaration :=
  (t.entered fun kind => !isPageDirective kind).flatMap t.directedOf

theorem mem_directed {t : Tree} {d : Declaration} :
    d ∈ t.directed ↔ d.directive ∈ (t.entered fun kind => !isPageDirective kind) ∧
      t.kind d.directive = .pageDirective ∧ d.attr ∈ (t.node d.directive).attributes := by
  rw [directed, List.mem_flatMap]
  constructor
  · rintro ⟨id, hid, hd⟩
    obtain ⟨rfl, hkind, hmem⟩ := mem_directedOf.mp hd
    exact ⟨hid, hkind, hmem⟩
  · rintro ⟨hid, hkind, hmem⟩
    exact ⟨d.directive, hid, mem_directedOf.mpr ⟨rfl, hkind, hmem⟩⟩

-- A node that can be reached is looked at unless it stands below one that is not entered.
theorem WellFormed.mem_entered_or_below {t : Tree} (ht : t.WellFormed) (enter : NodeKind → Bool)
    {id : Nat} (h : t.Reachable id) :
    id ∈ t.entered enter ∨ ∃ p ∈ t.ancestors id, enter (t.kind p) = false := by
  induction h with
  | refl => exact .inl (root_mem_entered ht enter)
  | @tail p c _ hc ih =>
    have hancestors := ancestors_eq_cons (ht.parent_eq hc) (ht.child_lt hc).1
    rcases ih with hmem | ⟨q, hq, hclosed⟩
    · cases hopen : enter (t.kind p) with
      | true => exact .inl (child_mem_entered ht enter hmem hopen hc)
      | false => exact .inr ⟨p, hancestors ▸ List.mem_cons_self .., hopen⟩
    · exact .inr ⟨q, hancestors ▸ List.mem_cons_of_mem _ hq, hclosed⟩

end Tree

namespace Settings

open Checking (bind_eq_ok)
open PageCompiler.Tree (Declaration)

theorem isPageDirective_iff {kind : NodeKind} : isPageDirective kind ↔ kind = .pageDirective := by
  cases kind <;> simp [isPageDirective]

variable {t : Tree} {r r' : Reconciled} {ds : List Declaration}

section Induction

variable {P : List Declaration → Reconciled → Prop}
  (hstep : ∀ {ds r r'} (d : Declaration), P ds r →
    applyAttribute t d.directive r d.attr = .ok r' → P (ds ++ [d]) r')

include hstep

theorem applyAttributes_induct {id : NodeId} {attrs : List Attribute} (h : P ds r)
    (happly : attrs.foldlM (applyAttribute t id) r = .ok r') :
    P (ds ++ attrs.map (⟨id, ·⟩)) r' := by
  induction attrs generalizing ds r with
  | nil =>
    cases happly
    rwa [List.map_nil, List.append_nil]
  | cons a attrs ih =>
    rw [List.foldlM_cons] at happly
    obtain ⟨r₁, hfirst, happly⟩ := bind_eq_ok.mp happly
    have hrest := ih (hstep ⟨id, a⟩ h hfirst) happly
    rwa [List.append_assoc] at hrest

theorem applyNode_induct {id : NodeId} (h : P ds r) (happly : applyNode t r id = .ok r') :
    P (ds ++ t.directedOf id) r' := by
  unfold applyNode at happly
  unfold Tree.directedOf
  cases hkind : t.kind id with
  | root data =>
    rw [hkind] at happly
    obtain ⟨_, -, happly⟩ := bind_eq_ok.mp happly
    cases happly
    simpa [isPageDirective] using h
  | pageDirective =>
    rw [hkind] at happly
    exact applyAttributes_induct hstep h happly
  | _ =>
    rw [hkind] at happly
    cases happly
    simpa [isPageDirective] using h

-- By induction on the nodes, in the order in which they are taken up.
theorem applyNodes_induct {ids : List NodeId} (h : P ds r)
    (happly : ids.foldlM (applyNode t) r = .ok r') : P (ds ++ ids.flatMap t.directedOf) r' := by
  induction ids generalizing ds r with
  | nil =>
    cases happly
    simpa using h
  | cons id ids ih =>
    rw [List.foldlM_cons] at happly
    obtain ⟨r₁, hfirst, happly⟩ := bind_eq_ok.mp happly
    rw [List.flatMap_cons, ← List.append_assoc]
    exact ih (applyNode_induct hstep h hfirst) happly

-- What one attribute after the other keeps up is known of the settings of the page.
theorem reconcile_induct {o : Options} {settings : Settings}
    (hstart : P [] { settings := ofOptions o }) (h : reconcile t o = .ok settings) :
    ∃ r : Reconciled, r.settings = settings ∧ P t.directed r := by
  obtain ⟨r, hnodes, hflush⟩ := bind_eq_ok.mp h
  refine ⟨r, ?_, applyNodes_induct hstep hstart hnodes⟩
  unfold checkFlush at hflush
  split at hflush
  · cases hflush
  · exact Except.ok.inj hflush

end Induction

-- Without page directives the settings are the configured ones.
theorem reconcile_eq {o : Options} {settings : Settings} (h : reconcile t o = .ok settings)
    (hd : ∀ i, isPageDirective (t.kind i) = false) : settings = ofOptions o := by
  have hnone : t.directed = [] := by
    refine List.flatMap_eq_nil_iff.mpr fun id _ => ?_
    rw [Tree.directedOf, hd id]
    rfl
  obtain ⟨r, rfl, hkept⟩ := reconcile_induct
    (P := fun ds r => ds = [] → r.settings = ofOptions o)
    (fun d _ _ hds => absurd hds (by simp)) (fun _ => rfl) h
  exact hkept hnone

theorem flag_eq_ok {a : Attribute} {on : Bool} (h : flag t a = .ok on) :
    on = Text.isTrue a.value := by
  unfold flag at h
  unfold Text.isTrue sameLetters
  split at h
  · rename_i hvalue
    cases h
    rw [hvalue]
    decide
  · rename_i hvalue
    cases h
    rw [hvalue]
    decide
  · cases h

-- A buffer size is accepted when the bytes fit into 64 bits.
theorem size_eq_ok_iff {a : Attribute} {bytes : Nat} :
    size t a = .ok bytes ↔ buffer? a.value = some bytes ∧ bytes < wordLimit := by
  unfold size
  split
  · rename_i bytes' hvalue
    rw [hvalue, Option.some.injEq]
    split
    · rename_i hfits
      rw [Except.ok.injEq]
      exact ⟨fun heq => ⟨heq, heq ▸ hfits⟩, And.left⟩
    · rename_i hfits
      exact ⟨fun h => (nomatch h), fun h => absurd (h.1 ▸ h.2) hfits⟩
  · rename_i hnone
    rw [hnone]
    exact ⟨fun h => (nomatch h), fun h => nomatch h.1⟩

-- Which expressions text may hold, and whether it is trimmed, is told by three of the attributes.
theorem apply_flags {s s' : Settings} {a : Attribute} (h : apply t s a = .ok s') :
    s'.elIgnored = (if a.name = "isELIgnored" then Text.isTrue a.value else s.elIgnored) ∧
      s'.deferredAsLiteral = (if a.name = "deferredSyntaxAllowedAsLiteral" then
        Text.isTrue a.value else s.deferredAsLiteral) ∧
      s'.trimDirectiveWhitespaces = (if a.name = "trimDirectiveWhitespaces" then
        Text.isTrue a.value else s.trimDirectiveWhitespaces) := by
  unfold apply at h
  split at h
  case h_11 hname | h_12 hname | h_13 hname =>
    obtain ⟨on, hon, h⟩ := bind_eq_ok.mp h
    cases h
    rw [hname]
    exact ⟨by simp [flag_eq_ok hon], by simp [flag_eq_ok hon], by simp [flag_eq_ok hon]⟩
  case h_14 => cases h
  all_goals
    rename_i hname
    rw [hname]
    rw [if_neg (by decide), if_neg (by decide), if_neg (by decide)]
  case h_1 =>
    split at h <;> cases h
    exact ⟨rfl, rfl, rfl⟩
  case h_2 | h_7 | h_8 | h_10 =>
    cases h
    exact ⟨rfl, rfl, rfl⟩
  all_goals
    obtain ⟨_, -, h⟩ := bind_eq_ok.mp h
    cases h
    exact ⟨rfl, rfl, rfl⟩

-- A setting is what the attribute of the given name says.
structure Governs (name : String) (get : Settings → Bool) : Prop where
  name_ne : name ≠ "import" ∧ name ≠ "pageEncoding"
  apply : ∀ {t : Tree} {s s' : Settings} {a : Attribute}, apply t s a = .ok s' →
    get s' = if a.name = name then Text.isTrue a.value else get s
  imports : ∀ (s : Settings) (imports : List String), get { s with imports } = get s
  pageEncoding : ∀ (s : Settings) (pageEncoding : Option String),
    get { s with pageEncoding } = get s

theorem governs_elIgnored : Governs "isELIgnored" elIgnored :=
  ⟨by decide, fun h => (apply_flags h).1, fun _ _ => rfl, fun _ _ => rfl⟩

theorem governs_deferredAsLiteral : Governs "deferredSyntaxAllowedAsLiteral" deferredAsLiteral :=
  ⟨by decide, fun h => (apply_flags h).2.1, fun _ _ => rfl, fun _ _ => rfl⟩

theorem governs_trimDirectiveWhitespaces :
    Governs "trimDirectiveWhitespaces" trimDirectiveWhitespaces :=
  ⟨by decide, fun h => (apply_flags h).2.2, fun _ _ => rfl, fun _ _ => rfl⟩

variable {o : Options} {name : String} {get : Settings → Bool}

-- What the attributes taken up so far say about a setting.
structure Told (o : Options) (name : String) (get : Settings → Bool) (ds : List Declaration)
    (r : Reconciled) : Prop where
  seen : ∀ d ∈ ds, d.attr.name = name → (r.seen.lookup name).map Seen.value = some d.attr.value
  unseen : (∀ d ∈ ds, d.attr.name ≠ name) → r.seen.lookup name = none
  value : get r.settings =
    ((r.seen.lookup name).map fun first => Text.isTrue first.value).getD (get (ofOptions o))

theorem record_eq_ok {a : Attribute} (h : record t r a = .ok r') :
    r'.settings = r.settings ∧ (r'.seen.lookup a.name).map Seen.value = some a.value ∧
      (∀ first, r.seen.lookup a.name = some first → first.value = a.value) ∧
      ∀ name, name ≠ a.name → r'.seen.lookup name = r.seen.lookup name := by
  unfold record at h
  split at h
  · rename_i first hfirst
    split at h
    · rename_i hsame
      cases h
      refine ⟨rfl, by rw [hfirst, ← hsame]; rfl, fun first' hfirst' => ?_, fun _ _ => rfl⟩
      rw [hfirst] at hfirst'
      exact Option.some.inj hfirst' ▸ hsame
    · cases h
  · rename_i hnone
    cases h
    refine ⟨rfl, ?_, fun first hfirst => ?_, fun name hname => ?_⟩
    · simp [List.lookup_append, hnone]
    · rw [hnone] at hfirst
      cases hfirst
    · simp [List.lookup_append, List.lookup_cons, beq_eq_false_iff_ne.mpr hname]

theorem Told.of_eq (h : Told o name get ds r) {d : Declaration} (hname : d.attr.name ≠ name)
    (hseen : r'.seen.lookup name = r.seen.lookup name)
    (hvalue : get r'.settings = get r.settings) : Told o name get (ds ++ [d]) r' where
  seen d' hd' hname' := by
    rw [hseen]
    rcases List.mem_append.mp hd' with hd' | hd'
    · exact h.seen d' hd' hname'
    · rw [List.mem_singleton.mp hd'] at hname'
      exact absurd hname' hname
  unseen hnone := by
    rw [hseen]
    exact h.unseen fun d' hd' => hnone d' (List.mem_append_left _ hd')
  value := by rw [hvalue, hseen, h.value]

theorem applyEncoding_settings {id : NodeId} {a : Attribute}
    (h : applyEncoding t id r a = .ok r') :
    r'.seen = r.seen ∧ ∃ pageEncoding, r'.settings = { r.settings with pageEncoding } := by
  unfold applyEncoding at h
  dsimp only at h
  split at h
  · split at h
    · cases h
      exact ⟨rfl, _, rfl⟩
    · cases h
  · split at h
    · cases h
      exact ⟨rfl, _, rfl⟩
    · obtain ⟨_, -, h⟩ := bind_eq_ok.mp h
      split at h <;> cases h <;> exact ⟨rfl, _, rfl⟩

-- What taking up an attribute comes to.
theorem applyAttribute_eq_ok {id : NodeId} {a : Attribute}
    (h : applyAttribute t id r a = .ok r') :
    (a.name = "import" ∧
        ∃ imports, r' = { r with settings := { r.settings with imports } }) ∨
      (a.name = "pageEncoding" ∧ applyEncoding t id r a = .ok r') ∨
        ∃ settings, apply t r.settings a = .ok settings ∧ record t { r with settings } a = .ok r' := by
  unfold applyAttribute at h
  cases hscripting : a.scripting with
  | true =>
    rw [hscripting] at h
    obtain ⟨_, hfail, -⟩ := bind_eq_ok.mp h
    cases hfail
  | false =>
    simp only [hscripting, Bool.false_eq_true, if_false] at h
    split at h
    · rename_i hname
      cases h
      exact .inl ⟨hname, _, rfl⟩
    · rename_i hname
      exact .inr (.inl ⟨hname, h⟩)
    · exact .inr (.inr (bind_eq_ok.mp h))

theorem Told.applyAttribute (hget : Governs name get) {d : Declaration}
    (h : Told o name get ds r) (happly : applyAttribute t d.directive r d.attr = .ok r') :
    Told o name get (ds ++ [d]) r' := by
  rcases applyAttribute_eq_ok happly with
    ⟨hname, imports, rfl⟩ | ⟨hname, happly⟩ | ⟨settings, hsettings, happly⟩
  · exact h.of_eq (by rw [hname]; exact hget.name_ne.1.symm) rfl (hget.imports _ _)
  · obtain ⟨hseen, pageEncoding, hsettings⟩ := applyEncoding_settings happly
    refine h.of_eq (by rw [hname]; exact hget.name_ne.2.symm) (by rw [hseen]) ?_
    rw [hsettings, hget.pageEncoding]
  · obtain ⟨hkept, hself, hsame, hother⟩ := record_eq_ok happly
    by_cases hname : d.attr.name = name
    · -- Whatever has been said before about the setting, it is the same.
      subst hname
      obtain ⟨first, hfirst, hvalue⟩ := Option.map_eq_some_iff.mp hself
      refine ⟨fun d' hd' hname' => ?_, fun hnone => ?_, ?_⟩
      · rcases List.mem_append.mp hd' with hd' | hd'
        · obtain ⟨first', hfirst', hvalue'⟩ := Option.map_eq_some_iff.mp (h.seen d' hd' hname')
          rw [hself, ← hvalue', hsame first' hfirst']
        · rw [List.mem_singleton.mp hd', hself]
      · exact absurd rfl (hnone d (List.mem_append_right _ (List.mem_singleton_self d)))
      · rw [hkept, hget.apply hsettings, if_pos rfl, hfirst, Option.map_some, hvalue]
        rfl
    · refine h.of_eq hname (hother name (Ne.symm hname)) ?_
      rw [hkept, hget.apply hsettings, if_neg hname]

-- Whatever attribute tells a setting tells what it is for the whole page.
theorem value_of_reconcile (hget : Governs name get) {settings : Settings}
    (h : reconcile t o = .ok settings) :
    (∀ d ∈ t.directed, d.attr.name = name → get settings = Text.isTrue d.attr.value) ∧
      ((∀ d ∈ t.directed, d.attr.name ≠ name) → get settings = get (ofOptions o)) := by
  have hstart : Told o name get [] { settings := ofOptions o } :=
    ⟨(fun _ hd => nomatch hd), fun _ => rfl, rfl⟩
  obtain ⟨r, rfl, htold⟩ :=
    reconcile_induct (fun _ htold => htold.applyAttribute hget) hstart h
  refine ⟨fun d hd hname => ?_, fun hnone => ?_⟩
  · obtain ⟨first, hfirst, hvalue⟩ := Option.map_eq_some_iff.mp (htold.seen d hd hname)
    rw [htold.value, hfirst, Option.map_some, hvalue]
    rfl
  · rw [htold.value, htold.unseen hnone]
    rfl

end Settings

theorem Page.check_settings {p : Page} {o : Options} {c : CheckedPage} (h : p.check o = .ok c) :
    Settings.reconcile p.tree o = .ok c.settings := by
  unfold check at h
  obtain ⟨settings, hsettings, h⟩ := Checking.bind_eq_ok.mp h
  obtain ⟨s, -, h⟩ := Checking.bind_eq_ok.mp h
  obtain ⟨_, -, h⟩ := Checking.bind_eq_ok.mp h
  cases h
  exact hsettings

end PageCompiler
