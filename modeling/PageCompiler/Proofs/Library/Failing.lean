import PageCompiler.Library.Resolver
import PageCompiler.Proofs.Checking.Established
import PageCompiler.Source.Encoding
import PageCompiler.Source.Loader

namespace PageCompiler

open Checking (bind_eq_ok)

-- When it fails, the diagnostic has the property.
def Failing {α : Type} (P : Diagnostic → Prop) (m : Except Diagnostic α) : Prop :=
  ∀ d, m = .error d → P d

namespace Failing

variable {α β : Type} {P : Diagnostic → Prop}

theorem ok (a : α) : Failing P (.ok a) := by
  rintro d ⟨⟩

theorem error {d : Diagnostic} (h : P d) : Failing P (.error d : Except Diagnostic α) := by
  rintro _ ⟨⟩
  exact h

theorem bind {m : Except Diagnostic α} {f : α → Except Diagnostic β} (hm : Failing P m)
    (hf : ∀ a, m = .ok a → Failing P (f a)) : Failing P (m >>= f) := by
  intro d h
  cases m with
  | error =>
    cases h
    exact hm d rfl
  | ok a => exact hf a rfl d h

-- Nothing comes behind a failure.
theorem error_bind {d : Diagnostic} (h : P d) (f : α → Except Diagnostic β) :
    Failing P ((.error d : Except Diagnostic α) >>= f) := error h

theorem map (f : α → β) {m : Except Diagnostic α} (hm : Failing P m) : Failing P (f <$> m) := by
  intro d h
  cases m with
  | error =>
    cases h
    exact hm d rfl
  | ok a => cases h

theorem mapM {l : List α} {f : α → Except Diagnostic β} (hf : ∀ a ∈ l, Failing P (f a)) :
    Failing P (l.mapM f) := by
  induction l with
  | nil => exact ok []
  | cons a l ih =>
    obtain ⟨hfirst, hrest⟩ := List.forall_mem_cons.mp hf
    rw [List.mapM_cons]
    exact hfirst.bind fun _ _ => (ih hrest).bind fun _ _ => ok _

theorem forM {l : List α} {f : α → Except Diagnostic PUnit} (hf : ∀ a ∈ l, Failing P (f a)) :
    Failing P (l.forM f) := by
  induction l with
  | nil => exact ok _
  | cons a l ih =>
    obtain ⟨hfirst, hrest⟩ := List.forall_mem_cons.mp hf
    exact hfirst.bind fun _ _ => ih hrest

-- A fold may rest on what its steps keep.
theorem foldlM {l : List α} {f : β → α → Except Diagnostic β} {I : β → Prop} {init : β}
    (hinit : I init)
    (hf : ∀ b, I b → ∀ a ∈ l, Failing P (f b a) ∧ ∀ b', f b a = .ok b' → I b') :
    Failing P (l.foldlM f init) ∧ ∀ b, l.foldlM f init = .ok b → I b := by
  induction l generalizing init with
  | nil =>
    refine ⟨ok init, ?_⟩
    rintro b ⟨⟩
    exact hinit
  | cons a l ih =>
    obtain ⟨hfirst, hkept⟩ := hf init hinit a (List.mem_cons_self ..)
    have hrest : ∀ b, f init a = .ok b → _ := fun b hb =>
      ih (hkept b hb) fun c hc a' ha' => hf c hc a' (List.mem_cons_of_mem _ ha')
    rw [List.foldlM_cons]
    refine ⟨hfirst.bind fun b hb => (hrest b hb).1, fun c hc => ?_⟩
    obtain ⟨b, hb, hc⟩ := bind_eq_ok.mp hc
    exact (hrest b hb).2 c hc

end Failing

-- They are all reported.
abbrev Diagnostic.Unplaced (d : Diagnostic) : Prop := d.mark = none ∧ d.fault.aborts = false

theorem failing_unplaced_mapError {ε α : Type} (r : Except ε α) (f : ε → Diagnostic)
    (h : ∀ e, (f e).Unplaced) : Failing Diagnostic.Unplaced (r.mapError f) := by
  intro d hd
  cases r with
  | ok a => cases hd
  | error e =>
    cases hd
    exact h e

theorem Loader.failing_load (loader : Loader) (name : String) :
    Failing Diagnostic.Unplaced (loader.load name) := by
  unfold load
  split
  · split
    · exact .ok _
    · exact .error ⟨rfl, rfl⟩
  · split
    · exact .ok _
    · exact .error ⟨rfl, rfl⟩

theorem Encoding.reported_of_decodeAs {encoding : String} {bytes : Text.Utf8.Bytes} {fault : Fault}
    (h : decodeAs encoding bytes = .error fault) : fault.aborts = false := by
  have hutf16 : ∀ order (reason : Text.Utf16.Malformed → Fault), (∀ e, (reason e).aborts = false) →
      (Text.Utf16.decode order bytes).mapError reason = .error fault → fault.aborts = false := by
    intro order reason hreason h
    cases hdecode : Text.Utf16.decode order bytes with
    | ok text =>
      rw [hdecode] at h
      cases h
    | error e =>
      rw [hdecode] at h
      cases h
      exact hreason e
  unfold decodeAs at h
  dsimp only at h
  split at h
  · split at h
    · cases h
    · cases h
      rfl
  · split at h
    · cases h
    · cases h
      rfl
  · cases h
  · exact hutf16 _ _ (fun _ => rfl) h
  · exact hutf16 _ _ (fun _ => rfl) h
  · exact hutf16 _ _ (fun _ => rfl) h
  · cases h
    rfl

theorem Encoding.aborts_inUnit (unit : String) (fault : Fault) :
    (inUnit unit fault).aborts = fault.aborts := by
  unfold inUnit
  split <;> rfl

theorem Encoding.failing_decode (unit : String) (bytes : Text.Utf8.Bytes) (external : Option String)
    (default : String) : Failing Diagnostic.Unplaced (decode unit bytes external default) := by
  unfold decode
  dsimp only
  split
  · rename_i hfault
    exact .error ⟨rfl, (aborts_inUnit unit _).trans (reported_of_decodeAs hfault)⟩
  · exact .ok _

namespace Resolver

theorem failing_readDescriptor (files : FileSystem) (path : String) :
    Failing Diagnostic.Unplaced (readDescriptor files path) := by
  unfold readDescriptor
  split
  · exact .error ⟨rfl, rfl⟩
  · unfold Descriptor.read
    split
    · exact .ok _
    · exact .error ⟨rfl, rfl⟩

theorem failing_readLibrary (files : FileSystem) (path : String) :
    Failing Diagnostic.Unplaced (readLibrary files path) :=
  (failing_readDescriptor files path).bind fun _ _ =>
    failing_unplaced_mapError _ _ fun _ => ⟨rfl, rfl⟩

theorem failing_readDirectory (files : FileSystem) (directory path : String) :
    Failing Diagnostic.Unplaced (readDirectory files directory path) := by
  unfold readDirectory
  split
  · exact .error ⟨rfl, rfl⟩
  · refine (Failing.foldlM (I := fun _ => True) trivial fun library _ path _ => ⟨?_, ?_⟩).1
    · unfold addTagFile
      split
      · exact .ok _
      · split
        · exact .error ⟨rfl, rfl⟩
        · split
          · exact .error ⟨rfl, rfl⟩
          · exact .ok _
    · exact fun _ _ => trivial

theorem failing_load {r : Resolver} {path : String}
    {read : FileSystem → String → Except Diagnostic Library}
    (hread : ∀ key, Failing Diagnostic.Unplaced (read r.files key)) :
    Failing Diagnostic.Unplaced (r.load path read).1 := by
  unfold load
  dsimp only
  split
  · exact .ok _
  · split
    · rename_i d hd
      exact .error (hread _ d hd)
    · exact .ok _

theorem failing_resolve (r : Resolver) (ref : LibraryRef) :
    Failing Diagnostic.Unplaced (r.resolve ref).1 := by
  have hfile : ∀ (r : Resolver) (path : String),
      Failing Diagnostic.Unplaced (r.load path readLibrary).1 :=
    fun r path => failing_load fun key => failing_readLibrary r.files key
  have hlocate : Failing Diagnostic.Unplaced (r.locate ref).1 := by
    unfold locate
    split
    · exact .ok _
    · split
      · unfold resolveUri
        dsimp only
        split
        · exact (hfile r _).map some
        · split
          · exact (hfile r _).map some
          · split
            · exact .ok _
            · exact (hfile _ _).map some
      · unfold resolveDirectory
        dsimp only
        split
        · exact .ok _
        · exact (failing_load fun key => failing_readDirectory r.files _ key).map some
  exact hlocate.map _

end Resolver
end PageCompiler
