import PageCompiler.Proofs.Library.Failing
import PageCompiler.Proofs.Markup.Tiling
import PageCompiler.Proofs.Reading.BindingRuns
import PageCompiler.Proofs.Reading.Pages
import PageCompiler.Proofs.Reading.Pruning
import PageCompiler.Proofs.Reading.Stages

namespace PageCompiler

open Text

-- A place that is not beyond the end of a text at hand.
def Sources.Covers (sources : Sources) (mark : Mark) : Prop :=
  ∃ text, sources.find? mark.unit = some text ∧ mark.offset ≤ text.utf8ByteSize

-- A diagnostic that points into a text at hand: at the byte behind its place, or at none when the
-- place is the end of the text.
def Diagnostic.Within (d : Diagnostic) (sources : Sources) : Prop :=
  ∃ mark text, d.mark = some mark ∧ sources.find? mark.unit = some text ∧
    mark.offset ≤ text.utf8ByteSize ∧ d.sourced ∧
    d.span = (mark.offset, if mark.offset < text.utf8ByteSize then 1 else 0)

theorem Diagnostic.within_place {sources : Sources} {mark : Mark} (h : sources.Covers mark)
    (phase : String) (fault : Fault) : (place sources phase fault mark).Within sources := by
  obtain ⟨text, hfound, hle⟩ := h
  rw [place, hfound]
  exact ⟨mark, text, rfl, hfound, hle, rfl, rfl⟩

theorem Diagnostic.mark_place (sources : Sources) (phase : String) (fault : Fault) (mark : Mark) :
    (place sources phase fault mark).mark = some mark := by
  unfold place
  split <;> rfl

-- Marks that lie in the text of a unit.
def Mark.LiesIn (unit : String) (text : List Char) (mark : Mark) : Prop :=
  mark.unit = unit ∧ mark.offset ≤ byteSize text

theorem Sources.covers_of_liesIn {sources : Sources} {unit : String} {text : List Char}
    (h : sources.find? unit = some (String.ofList text)) {mark : Mark}
    (hmark : mark.LiesIn unit text) : sources.Covers mark := by
  obtain ⟨rfl, hle⟩ := hmark
  exact ⟨_, h, by rwa [utf8ByteSize_ofList]⟩

def Node.Marked (marks : Mark → Prop) (n : Node) : Prop :=
  marks n.mark ∧ ∀ a ∈ n.attributes, marks a.mark

theorem Node.Marked.mono {marks marks' : Mark → Prop} {n : Node} (h : n.Marked marks)
    (hsub : ∀ m, marks m → marks' m) : n.Marked marks' :=
  ⟨hsub _ h.1, fun a ha => hsub _ (h.2 a ha)⟩

theorem Node.Marked.of_alike {marks : Mark → Prop} {n m : Node} (h : n.Marked marks)
    (halike : n.Alike m) : m.Marked marks := by
  rw [Marked, halike.mark_eq, halike.attributes_eq]
  exact h

-- What stops the compiler while it reads: in a document that starts with a byte order mark, which
-- is not counted by its reader, an event or the end is looked for inside of a character.
def Diagnostic.Splits (o : Options) (loader : Loader) (d : Diagnostic) : Prop :=
  ∃ data text start stop, Page.Loaded o loader data text ∧ data.form = .strict ∧
    text.head?.map Char.toNat = some 0xFEFF ∧ (Markup.read text).Spans start stop ∧
    slice? start stop text = none ∧ d.fault = .splitCharacter start stop ∧
    d.mark = some (.ofOffset data.unit text start)

namespace Builder

-- What is known of everything that has been read by now.
structure Sound (o : Options) (loader : Loader) (b : Builder) : Prop where
  wellFormed : b.tree.WellFormed
  loaded : ∀ {unit text : String}, b.tree.sources.find? unit = some text →
    ∃ data chars, Page.Loaded o loader data chars ∧ data.unit = unit ∧ text = String.ofList chars
  node : ∀ id < b.tree.size, (b.tree.node id).Marked b.tree.sources.Covers
  binding : ∀ entry ∈ b.bindings.bound, b.tree.sources.Covers entry.2.mark

-- Nodes and texts that are there stay.
structure Retains (b b' : Builder) : Prop where
  size_le : b.tree.size ≤ b'.tree.size
  find?_eq : ∀ {unit text : String}, b.tree.sources.find? unit = some text →
    b'.tree.sources.find? unit = some text

variable {b b' b'' : Builder}

theorem Retains.refl (b : Builder) : Retains b b := ⟨Nat.le_refl _, id⟩

theorem Retains.trans (h : Retains b b') (h' : Retains b' b'') : Retains b b'' :=
  ⟨h.size_le.trans h'.size_le, fun hfound => h'.find?_eq (h.find?_eq hfound)⟩

theorem Retains.covers (h : Retains b b') {mark : Mark} (hmark : b.tree.sources.Covers mark) :
    b'.tree.sources.Covers mark := by
  obtain ⟨text, hfound, hle⟩ := hmark
  exact ⟨text, h.find?_eq hfound, hle⟩

-- What a program comes to: what is known stays known, and a failure points into a text at hand. It
-- is reported, unless a document is cut inside of a character.
structure ReportsAt (o : Options) (loader : Loader) {α : Type} (m : BuildM α) (b : Builder) :
    Prop where
  ok : ∀ {a : α} {b' : Builder}, m b = .ok a b' → b'.Sound o loader ∧ b.Retains b'
  error : ∀ {d : Diagnostic} {b' : Builder}, m b = .error d b' →
    b'.Sound o loader ∧ d.Within b'.tree.sources ∧ (d.fault.aborts = true → d.Splits o loader)

-- A program that may point at the given marks.
def Reports (o : Options) (loader : Loader) {α : Type} (marks : Mark → Prop) (m : BuildM α) :
    Prop :=
  ∀ b : Builder, b.Sound o loader → (∀ mark, marks mark → b.tree.sources.Covers mark) →
    ReportsAt o loader m b

variable {o : Options} {loader : Loader} {α β : Type} {marks : Mark → Prop}

theorem ReportsAt.bind {m : BuildM α} {f : α → BuildM β} (hm : ReportsAt o loader m b)
    (hf : ∀ a b', m b = .ok a b' → b'.Sound o loader → b.Retains b' →
      ReportsAt o loader (f a) b') : ReportsAt o loader (m >>= f) b := by
  constructor
  · intro c b'' h
    obtain ⟨a, b', hfirst, h⟩ := BuildM.bind_eq_ok.mp h
    obtain ⟨hsound, hretains⟩ := hm.ok hfirst
    obtain ⟨hsound', hretains'⟩ := (hf a b' hfirst hsound hretains).ok h
    exact ⟨hsound', hretains.trans hretains'⟩
  · intro d b'' h
    cases hfirst : m b with
    | error d' b' =>
      have hsame : (m >>= f) b = .error d' b' := by simp only [Bind.bind, EStateM.bind, hfirst]
      rw [hsame] at h
      cases h
      exact hm.error hfirst
    | ok a b' =>
      have hrest : (m >>= f) b = f a b' := by simp only [Bind.bind, EStateM.bind, hfirst]
      rw [hrest] at h
      obtain ⟨hsound, hretains⟩ := hm.ok hfirst
      exact (hf a b' hfirst hsound hretains).error h

theorem ReportsAt.bind_reports {m : BuildM α} {f : α → BuildM β} (hm : ReportsAt o loader m b)
    (hmarks : ∀ mark, marks mark → b.tree.sources.Covers mark)
    (hf : ∀ a, Reports o loader marks (f a)) : ReportsAt o loader (m >>= f) b :=
  hm.bind fun a b' _ hsound hretains =>
    hf a b' hsound fun mark hmark => hretains.covers (hmarks mark hmark)

namespace Reports

theorem bind {m : BuildM α} {f : α → BuildM β} (hm : Reports o loader marks m)
    (hf : ∀ a, Reports o loader marks (f a)) : Reports o loader marks (m >>= f) :=
  fun b hsound hmarks => (hm b hsound hmarks).bind_reports hmarks hf

-- What a program gives when it does not fail may be used in what follows.
theorem bind_ok {m : BuildM α} {f : α → BuildM β} (hm : Reports o loader marks m)
    (hf : ∀ a b b', m b = .ok a b' → Reports o loader marks (f a)) :
    Reports o loader marks (m >>= f) :=
  fun b hsound hmarks => (hm b hsound hmarks).bind fun a b' h hsound' hretains =>
    hf a b b' h b' hsound' fun mark hmark => hretains.covers (hmarks mark hmark)

theorem pure (a : α) : Reports o loader marks (Pure.pure a : BuildM α) := by
  refine fun b hsound _ => ⟨?_, ?_⟩
  · rintro a b' ⟨⟩
    exact ⟨hsound, .refl b⟩
  · rintro d b' ⟨⟩

theorem get : Reports o loader marks (MonadState.get : BuildM Builder) := by
  refine fun b hsound _ => ⟨?_, ?_⟩
  · rintro a b' ⟨⟩
    exact ⟨hsound, .refl b⟩
  · rintro d b' ⟨⟩

-- Behind a look at the state, its marks are there to be pointed at.
theorem get_bind {f : Builder → BuildM β}
    (hf : ∀ b, b.Sound o loader → (∀ mark, marks mark → b.tree.sources.Covers mark) →
      Reports o loader b.tree.sources.Covers (f b)) :
    Reports o loader marks (MonadState.get >>= f) := by
  refine fun b hsound hmarks => (get b hsound hmarks).bind fun a b' h _ _ => ?_
  cases h
  exact hf b hsound hmarks b hsound fun _ hmark => hmark

theorem map {m : BuildM α} (f : α → β) (hm : Reports o loader marks m) :
    Reports o loader marks (f <$> m) := by
  rw [map_eq_pure_bind]
  exact hm.bind fun a => pure (f a)

theorem discard {m : BuildM α} (hm : Reports o loader marks m) :
    Reports o loader marks (Functor.discard m) := hm.map _

theorem forIn {l : List α} {f : α → β → BuildM (ForInStep β)}
    (hf : ∀ a ∈ l, ∀ c, Reports o loader marks (f a c)) (init : β) :
    Reports o loader marks (forIn l init f) := by
  induction l generalizing init with
  | nil => exact pure init
  | cons a l ih =>
    obtain ⟨hfirst, hrest⟩ := List.forall_mem_cons.mp hf
    rw [List.forIn_cons]
    refine (hfirst init).bind fun r => ?_
    cases r with
    | done c => exact pure c
    | yield c => exact ih hrest c

theorem foldlM {l : List α} {f : β → α → BuildM β}
    (hf : ∀ c, ∀ a ∈ l, Reports o loader marks (f c a)) (init : β) :
    Reports o loader marks (l.foldlM f init) := by
  induction l generalizing init with
  | nil => exact pure init
  | cons a l ih =>
    rw [List.foldlM_cons]
    exact (hf init a (List.mem_cons_self ..)).bind
      (ih fun c a ha => hf c a (List.mem_cons_of_mem _ ha))

-- A change that touches neither the tree nor what prefixes are bound to.
theorem of_modifyGet {f : Builder → α × Builder} (htree : ∀ b, (f b).2.tree = b.tree)
    (hbound : ∀ b, (f b).2.bindings.bound = b.bindings.bound) :
    Reports o loader marks (modifyGet f : BuildM α) := by
  refine fun b hsound _ => ⟨?_, ?_⟩
  · rintro a b' ⟨⟩
    obtain ⟨hwf, hloaded, hnode, hbinding⟩ := hsound
    refine ⟨⟨?_, ?_, ?_, ?_⟩, ?_, ?_⟩
    · rw [htree]
      exact hwf
    · rw [htree]
      exact hloaded
    · rw [htree]
      exact hnode
    · rw [htree, hbound]
      exact hbinding
    · rw [htree]
    · rw [htree]
      exact id
  · rintro d b' ⟨⟩

theorem of_modify {f : Builder → Builder} (htree : ∀ b, (f b).tree = b.tree)
    (hbound : ∀ b, (f b).bindings.bound = b.bindings.bound) :
    Reports o loader marks (modify f) := .of_modifyGet htree hbound

end Reports

theorem reports_fail (fault : Fault) (hreported : fault.aborts = false) {mark : Mark}
    (hmark : marks mark) : Reports o loader marks (fail fault mark : BuildM α) := by
  refine fun b hsound hmarks => ⟨fun h => absurd h fail_ne_ok, fun {d b'} h => ?_⟩
  have hfault := fail_eq_error h
  cases h
  refine ⟨hsound, Diagnostic.within_place (hmarks mark hmark) _ _, fun haborts => ?_⟩
  rw [hfault, hreported] at haborts
  cases haborts

-- Nothing is done behind a failure.
theorem reports_fail_bind (fault : Fault) (hreported : fault.aborts = false) {mark : Mark}
    (hmark : marks mark) (f : α → BuildM β) :
    Reports o loader marks (fail fault mark >>= f) := by
  refine fun b hsound hmarks => ⟨fun h => ?_, fun h => ?_⟩
  · obtain ⟨_, _, hfail, -⟩ := BuildM.bind_eq_ok.mp h
    exact absurd hfail fail_ne_ok
  · exact (reports_fail fault hreported hmark b hsound hmarks).error h

theorem reports_placeError {mark : Mark} (hmark : marks mark) {r : Except Diagnostic α}
    (hr : Failing Diagnostic.Unplaced r) : Reports o loader marks (placeError mark r) := by
  cases r with
  | ok a => exact .pure a
  | error d =>
    refine fun b hsound hmarks => ⟨fun h => ?_, fun h => ?_⟩
    · obtain ⟨hok, -⟩ := placeError_eq_ok h
      cases hok
    · obtain ⟨hmark', hreported⟩ := hr d rfl
      rw [placeError, placed, hmark'] at h
      cases h
      obtain ⟨mark', text, hplace⟩ :=
        Diagnostic.within_place (hmarks mark hmark) "parse" d.fault
      refine ⟨hsound, ⟨mark', text, hplace⟩, fun haborts => ?_⟩
      rw [show d.fault.aborts = true by simpa using haborts] at hreported
      cases hreported

theorem reports_modifyTree {f : Tree → Tree} (hgrows : ∀ t, Tree.Grows t (f t))
    (halike : ∀ t, Tree.Alike t (f t)) (hsources : ∀ t, (f t).sources = t.sources) :
    Reports o loader marks (modifyTree f) := by
  refine fun b hsound _ => ⟨?_, ?_⟩
  · rintro a b' ⟨⟩
    have hsame := halike b.tree
    refine ⟨⟨(hgrows b.tree).keeps Tree.WellFormed.step hsound.wellFormed, ?_, ?_, ?_⟩, ?_, ?_⟩
    · dsimp only
      rw [hsources]
      exact hsound.loaded
    · intro id hid
      dsimp only at hid ⊢
      rw [hsame.size_eq] at hid
      rw [hsources]
      exact (hsound.node id hid).of_alike (hsame.node id)
    · dsimp only
      rw [hsources]
      exact hsound.binding
    · exact hsame.size_eq.ge
    · dsimp only
      rw [hsources]
      exact id
  · rintro d b' ⟨⟩

theorem reports_append {parent : NodeId} {n : Node} (hn : n.Marked marks)
    (hchildren : n.children = []) : Reports o loader marks (append parent n) := by
  refine fun b hsound hmarks => ⟨?_, ?_⟩
  · intro id b' h
    obtain ⟨-, rfl⟩ := append_eq_ok h
    have hsame : (b.tree.append parent n).2.sources = b.tree.sources := rfl
    refine ⟨⟨hsound.wellFormed.append hchildren, hsound.loaded, fun id hid => ?_, hsound.binding⟩,
      ?_, fun hfound => hfound⟩
    · dsimp only at hid ⊢
      rw [Tree.size_append] at hid
      rw [hsame]
      by_cases hnew : id = b.tree.size
      · rw [hnew, Tree.node_append_last]
        exact hn.mono hmarks
      · have hlt : id < b.tree.size := by omega
        exact (hsound.node id hlt).of_alike ((b.tree.extends_append parent n).node id hlt)
    · dsimp only
      rw [Tree.size_append]
      omega
  · rintro d b' ⟨⟩

-- Marks that a text which starts here may be given.
def Along (marks : Mark → Prop) (mark : Mark) (text : List Char) : Prop :=
  ∀ front, front <+: text → marks (mark.advance front)

theorem takeBytes_front (n : Nat) (text : List Char) : takeBytes n text <+: text :=
  ⟨(splitBytes text n).2, splitBytes_append text n⟩

variable {parent id : Nat} {mark : Mark} {text : List Char}

-- A text that fits into what is left of the unit.
theorem along_of_size {unit : String} {whole : List Char} (hunit : mark.unit = unit)
    (hsize : mark.offset + byteSize text ≤ byteSize whole) :
    Along (Mark.LiesIn unit whole) mark text := by
  rintro front ⟨behind, rfl⟩
  rw [byteSize_append] at hsize
  refine ⟨(Mark.advance_unit ..).trans hunit, ?_⟩
  rw [Mark.advance_offset]
  omega

theorem marked_of_mem_partNodes (h : Along marks mark text) {consumed : Nat} {parts : List Part} :
    ∀ n ∈ partNodes mark text consumed parts, n.Marked marks ∧ n.children = [] := by
  have hplace : ∀ k, marks (mark.advance (takeBytes k text)) :=
    fun k => h _ (takeBytes_front k text)
  fun_induction partNodes mark text consumed parts with
  | case1 => simp
  | case2 consumed value parts ih =>
    exact List.forall_mem_cons.mpr ⟨⟨⟨hplace consumed, by simp⟩, rfl⟩, ih⟩
  | case3 consumed dialect source tree offset parts ih =>
    exact List.forall_mem_cons.mpr ⟨⟨⟨hplace offset, by simp⟩, rfl⟩, ih⟩

theorem reports_addText (parent : NodeId) (h : Along marks mark text) :
    Reports o loader marks (addText parent text mark) := by
  unfold addText
  split
  · exact .pure _
  · refine .bind .get fun b => ?_
    split
    · exact reports_fail _ rfl (h _ (takeBytes_front _ text))
    · refine .bind (.forIn (fun n hn _ => ?_) _) fun _ => .pure _
      obtain ⟨hmarked, hchildren⟩ := marked_of_mem_partNodes h n hn
      exact .bind (.discard (reports_append hmarked hchildren)) fun _ => .pure _

-- A node with a mark and no attributes.
theorem marked_of_mark {n : Node} (hmark : marks n.mark) (hattrs : n.attributes = []) :
    n.Marked marks := by
  refine ⟨hmark, fun a ha => ?_⟩
  rw [hattrs] at ha
  cases ha

theorem reports_addVerbatim (parent : NodeId) (text : List Char) (hmark : marks mark) :
    Reports o loader marks (addVerbatim parent text mark) := by
  unfold addVerbatim
  split
  · exact .pure _
  · exact .discard (reports_append (marked_of_mark hmark rfl) rfl)

theorem reports_addComment (parent : NodeId) (text : List Char) (hmark : marks mark) :
    Reports o loader marks (addComment parent text mark) :=
  .discard (reports_append (marked_of_mark hmark rfl) rfl)

theorem reports_addScript (parent : NodeId) (kind : ScriptKind) (code : Script)
    (hmark : marks mark) : Reports o loader marks (addScript parent kind code mark) := by
  refine reports_append (marked_of_mark hmark rfl) ?_
  cases code <;> rfl

theorem reports_invalidDirective (reason : String) (hmark : marks mark) :
    Reports o loader marks (invalidDirective reason mark : BuildM α) := reports_fail _ rfl hmark

theorem reports_addLibrary (key : String) (library : Library) :
    Reports o loader marks (modifyBindings (·.addLibrary key library)) :=
  .of_modify (fun _ => rfl) fun b => Bindings.bound_addLibrary b.bindings key library

theorem reports_addDependency (name : String) :
    Reports o loader marks (modifyBindings (·.addDependency name)) :=
  .of_modify (fun _ => rfl) fun b => Bindings.bound_addDependency b.bindings name

-- A prefix is bound where it may be pointed at.
theorem reports_bind (space : String) (ref : LibraryRef) (hmark : marks mark) :
    Reports o loader marks (modifyBindings (·.bind space ⟨ref, mark⟩)) := by
  refine fun b hsound hmarks => ⟨?_, ?_⟩
  · rintro a b' ⟨⟩
    refine ⟨⟨hsound.wellFormed, hsound.loaded, hsound.node, fun entry hentry => ?_⟩,
      ⟨Nat.le_refl _, fun hfound => hfound⟩⟩
    rcases List.mem_append.mp hentry with hentry | hentry
    · exact hsound.binding entry hentry
    · rw [List.mem_singleton.mp hentry]
      exact hmarks mark hmark
  · rintro d b' ⟨⟩

theorem reports_bindSpace (space : String) (ref : LibraryRef) (hmark : marks mark) :
    Reports o loader marks (bindSpace space ref mark) := by
  unfold bindSpace
  split
  · exact reports_fail_bind _ rfl hmark _
  · refine .bind .get fun b => ?_
    split
    · split
      · exact .pure _
      · exact reports_invalidDirective _ hmark
    · exact reports_bind space ref hmark

theorem reports_resolve (ref : LibraryRef) (hmark : marks mark) :
    Reports o loader marks (resolve ref mark) := by
  unfold resolve
  refine .bind_ok (.of_modifyGet (fun _ => rfl) fun _ => rfl) fun found b b' h => ?_
  cases h
  exact reports_placeError hmark (b.resolver.failing_resolve ref)

theorem reports_bindNamespace (space : String) (ref : LibraryRef) (hmark : marks mark) :
    Reports o loader marks (bindNamespace space ref mark) := by
  unfold bindNamespace
  refine .bind .get fun b => ?_
  split
  · refine .bind (reports_resolve ref hmark) fun found => ?_
    split
    · exact .pure _
    · exact .bind (reports_addLibrary _ _) fun _ =>
        .bind (reports_bindSpace _ _ hmark) fun _ => .pure _
  · exact .bind (reports_bindSpace _ _ hmark) fun _ => .pure _

-- What a prefix is bound to has been bound at a place.
theorem mem_of_get? {bindings : Bindings} {space : String} {binding : Binding}
    (h : bindings.get? space = some binding) : (space, binding) ∈ bindings.bound := by
  obtain ⟨l₁, l₂, heq, -⟩ := List.lookup_eq_some_iff.mp h
  rw [heq]
  exact List.mem_append_right _ (List.mem_cons_self ..)

theorem reports_libraryOf (space : String) (hmark : marks mark) :
    Reports o loader marks (libraryOf space mark) := by
  unfold libraryOf
  refine .get_bind fun b hsound hmarks => ?_
  dsimp only
  split
  · exact reports_fail _ rfl (hmarks mark hmark)
  · rename_i binding hbinding
    have hplace : b.tree.sources.Covers binding.mark := hsound.binding _ (mem_of_get? hbinding)
    split
    · exact .pure _
    · refine .bind (reports_resolve _ hplace) fun found => ?_
      split
      · exact reports_fail _ rfl hplace
      · exact .bind (reports_addLibrary _ _) fun _ => .pure _

theorem mem_of_repeated? {earlier attrs : List Attribute} {a : Attribute}
    (h : repeated? earlier attrs = some a) : a ∈ attrs := by
  induction attrs generalizing earlier with
  | nil => cases h
  | cons first rest ih =>
    unfold repeated? at h
    split at h
    · cases h
      exact List.mem_cons_self ..
    · exact List.mem_cons_of_mem _ (ih h)

theorem reports_checkDistinct (action : String) {attrs : List Attribute}
    (hattrs : ∀ a ∈ attrs, marks a.mark) : Reports o loader marks (checkDistinct action attrs) := by
  unfold checkDistinct
  split
  · rename_i a ha
    exact reports_fail _ rfl (hattrs a (mem_of_repeated? ha))
  · exact .pure _

theorem reports_required (action : String) (attrs : List Attribute) (name : String)
    (hmark : marks mark) : Reports o loader marks (required action attrs name mark) := by
  unfold required
  split
  · exact .pure _
  · exact reports_fail _ rfl hmark

theorem reports_libraryRef (attrs : List Attribute) (hmark : marks mark) :
    Reports o loader marks (libraryRef attrs mark) := by
  unfold libraryRef
  split
  · exact .pure _
  · exact .pure _
  · exact reports_invalidDirective _ hmark
  · exact reports_fail _ rfl hmark

-- An included unit may be read from wherever it can be pointed at.
def IncludesReports (o : Options) (loader : Loader) (includeUnit : Includer) : Prop :=
  ∀ {marks : Mark → Prop} (parent : NodeId) (target : String) (origin : UnitOrigin) {mark : Mark},
    marks mark → Reports o loader marks (includeUnit parent target origin mark)

theorem reports_addDirective {includeUnit : Includer} (hi : IncludesReports o loader includeUnit)
    (parent : NodeId) (name : String) {attrs : List Attribute} (hmark : marks mark)
    (hattrs : ∀ a ∈ attrs, marks a.mark) :
    Reports o loader marks (addDirective includeUnit parent name attrs mark) := by
  unfold addDirective
  refine .bind (reports_checkDistinct _ hattrs) fun _ => ?_
  split
  · refine .bind (.of_modify (fun b => (applyPageAttributes_mode b attrs).1) fun b => ?_) fun _ =>
      reports_append ⟨hmark, hattrs⟩ rfl
    rw [(applyPageAttributes_mode b attrs).2.1]
  · exact .bind (reports_required _ _ _ hmark) fun _ => .bind (reports_libraryRef _ hmark) fun _ =>
      .bind (reports_bindSpace _ _ hmark) fun _ => reports_append ⟨hmark, hattrs⟩ rfl
  · exact .bind (reports_required _ _ _ hmark) fun _ =>
      .bind (reports_append ⟨hmark, hattrs⟩ rfl) fun _ =>
        .bind (.discard (hi _ _ _ hmark)) fun _ => .pure _
  all_goals exact reports_invalidDirective _ hmark

theorem reports_standardKind (parent : NodeId) (name : String) (attrs : List Attribute)
    (hmark : marks mark) (form : UnitForm) :
    Reports o loader marks (standardKind parent name attrs mark form) := by
  unfold standardKind
  split
  case h_13 => exact .bind (reports_required _ _ _ hmark) fun _ => .pure _
  case h_14 =>
    split
    · exact .pure _
    · exact reports_fail _ rfl hmark
  case h_15 =>
    refine .bind .get fun b => ?_
    split
    · exact .pure _
    · exact reports_fail _ rfl hmark
  case h_16 => exact reports_fail _ rfl hmark
  all_goals exact .pure _

theorem reports_customKind (parent : NodeId) (space name : String) (hmark : marks mark) :
    Reports o loader marks (customKind parent space name mark) := by
  unfold customKind
  refine .bind (reports_libraryOf _ hmark) fun library => ?_
  split
  · exact reports_fail _ rfl hmark
  · exact .bind .get fun _ => .pure _

theorem reports_startAction (parent : NodeId) (name : String) {attrs : List Attribute}
    (hmark : marks mark) (hattrs : ∀ a ∈ attrs, marks a.mark) (form : UnitForm) :
    Reports o loader marks (startAction parent name attrs mark form) := by
  unfold startAction
  refine .bind (reports_checkDistinct _ hattrs) fun _ => ?_
  dsimp only
  split
  · exact .bind (reports_standardKind _ _ _ hmark _) fun _ => reports_append ⟨hmark, hattrs⟩ rfl
  · exact .bind (reports_customKind _ _ _ hmark) fun _ => reports_append ⟨hmark, hattrs⟩ rfl

theorem reports_openBody (id : NodeId) : Reports o loader marks (modifyTree (·.openBody id)) :=
  reports_modifyTree (fun t => .single (.openBody t id)) (fun t => Tree.alike_openBody t id)
    fun _ => rfl

theorem sources_removeBlanks (t : Tree) (id : NodeId) : (removeBlanks t id).sources = t.sources := by
  refine Tree.sources_foldl (fun t c => ?_) _ t
  split <;> rfl

theorem sources_trimBody (t : Tree) (id : NodeId) : (trimBody t id).sources = t.sources := by
  have hend : ∀ (end? : Option NodeId) (f : TextRun → TextRun) (t : Tree),
      (end?.elim t fun id => t.modifyText id f).sources = t.sources := by
    intro end? f t
    cases end? <;> rfl
  rw [trimBody, hend, hend]

-- A child is a node, so that it may be pointed at.
theorem Sound.child {b : Builder} (h : b.Sound o loader) {id : NodeId} {p : NodeId → Bool}
    {child : NodeId} (hfound : (b.tree.children id).find? p = some child) :
    b.tree.sources.Covers (b.tree.mark child) :=
  (h.node child (h.wellFormed.child_lt (List.mem_of_find?_eq_some hfound)).2).1

theorem reports_trimBody (id : NodeId) : Reports o loader marks (modifyTree (trimBody · id)) :=
  reports_modifyTree (fun t => grows_trimBody t id) (fun t => alike_trimBody t id)
    fun t => sources_trimBody t id

theorem reports_removeBlanks (id : NodeId) :
    Reports o loader marks (modifyTree (removeBlanks · id)) :=
  reports_modifyTree (fun t => grows_removeBlanks t id) (fun t => alike_removeBlanks t id)
    fun t => sources_removeBlanks t id

theorem reports_finishElement (id : NodeId) : Reports o loader marks (finishElement id) := by
  unfold finishElement
  refine .get_bind fun b hsound _ => ?_
  extract_lets t rest
  -- What is done whether or not the element has named attributes.
  have hrest : ∀ {marks : Mark → Prop} u, Reports o loader marks (rest u) := by
    intro marks u
    refine .get_bind fun b hsound _ => ?_
    extract_lets t trim
    have htrim : ∀ {marks : Mark → Prop} u, Reports o loader marks (trim u) := by
      intro marks u
      dsimp only [trim]
      split
      · split
        · exact reports_trimBody id
        · exact .pure _
      · exact .pure _
    split
    · split
      · rename_i content hcontent
        exact reports_fail_bind _ rfl (hsound.child hcontent) _
      · exact htrim ()
    · exact htrim ()
  split
  · refine .bind (reports_removeBlanks id) fun _ => .get_bind fun b hsound _ => ?_
    dsimp only
    split
    · rename_i stray hstray
      exact reports_fail_bind _ rfl (hsound.child hstray) _
    · exact hrest ()
  · exact hrest ()

end Builder
end PageCompiler
