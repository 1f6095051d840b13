import PageCompiler.Handlers.Pool
import Mathlib.Data.List.Nodup

-- A handler is idle, or one client has it, or it has been dropped, and nothing brings a dropped one
-- back.
namespace PageCompiler.HandlerPool

-- A call of a client, with what came of it.
inductive Call (κ α : Type) where
  | acquire (client : κ) (handler : α)
  | release (client : κ) (handler : α) (consistent kept : Bool)
  | clear

-- A pool, with all the handlers that were ever made for it.
structure Custody (κ α : Type) where
  pool : HandlerPool α
  -- The handlers that clients have, the last one taken in front.
  held : List (κ × α) := []
  dropped : List α := []
  made : List α := []

-- Where a handler can be.
inductive Place (κ : Type) where
  | idle
  | client (client : κ)
  | dropped

namespace Custody

variable {κ α : Type} {capacity : Nat} {s s' : Custody κ α} {handler : α} {call : Call κ α}
  {calls : List (Call κ α)}

def start (capacity : Nat) : Custody κ α := { pool := { capacity } }

def At (s : Custody κ α) (handler : α) : Place κ → Prop
  | .idle => handler ∈ s.pool.idle
  | .client client => (client, handler) ∈ s.held
  | .dropped => handler ∈ s.dropped

-- The handlers of all places, each as often as it is there.
def all (s : Custody κ α) : List α := s.pool.idle ++ s.held.map Prod.snd ++ s.dropped

-- One call. What a client gets is new when no handler is idle, and it gives back what it has.
inductive Step : Custody κ α → Call κ α → Custody κ α → Prop
  | acquire (s : Custody κ α) (client : κ) {new : α} (hnew : s.pool.idle = [] → new ∉ s.made) :
      Step s (.acquire client (s.pool.acquire fun _ => new).1)
        { s with
          pool := (s.pool.acquire fun _ => new).2
          held := (client, (s.pool.acquire fun _ => new).1) :: s.held
          made := if s.pool.idle.isEmpty then new :: s.made else s.made }
  | release (s : Custody κ α) {client : κ} {handler : α} {before behind : List (κ × α)}
      (consistent : Bool) (hheld : s.held = before ++ (client, handler) :: behind) :
      Step s (.release client handler consistent (s.pool.accepts consistent))
        { s with
          pool := s.pool.release handler consistent
          held := before ++ behind
          dropped := if s.pool.accepts consistent then s.dropped else handler :: s.dropped }
  | clear (s : Custody κ α) :
      Step s .clear { s with pool := s.pool.clear, dropped := s.pool.idle ++ s.dropped }

-- Calls of any clients, one after the other.
inductive Run : Custody κ α → List (Call κ α) → Custody κ α → Prop
  | refl (s : Custody κ α) : Run s [] s
  | cons {s s₁ s' : Custody κ α} {call : Call κ α} {calls : List (Call κ α)}
      (hstep : Step s call s₁) (hrun : Run s₁ calls s') : Run s (call :: calls) s'

theorem Run.split {before behind : List (Call κ α)} (h : Run s (before ++ behind) s') :
    ∃ s₁, Run s before s₁ ∧ Run s₁ behind s' := by
  induction before generalizing s with
  | nil => exact ⟨s, .refl s, h⟩
  | cons call before ih =>
    obtain _ | ⟨hstep, hrun⟩ := h
    obtain ⟨s₁, hbefore, hbehind⟩ := ih hrun
    exact ⟨s₁, .cons hstep hbefore, hbehind⟩

-- Every handler that was made is counted once, and there is room for those that are idle.
structure Kept (capacity : Nat) (s : Custody κ α) : Prop where
  nodup : s.made.Nodup
  perm : s.all.Perm s.made
  capacity_eq : s.pool.capacity = capacity
  length_le : s.pool.idle.length ≤ capacity

theorem kept_start (capacity : Nat) : Kept capacity (start capacity : Custody κ α) :=
  ⟨.nil, .nil, rfl, Nat.zero_le _⟩

theorem perm_acquire (client : κ) {new : α} (h : s.all.Perm s.made) :
    (all { s with
      pool := (s.pool.acquire fun _ => new).2
      held := (client, (s.pool.acquire fun _ => new).1) :: s.held }).Perm
      (if s.pool.idle.isEmpty then new :: s.made else s.made) := by
  unfold all at h ⊢
  unfold acquire take?
  cases hidle : s.pool.idle with
  | nil =>
    rw [hidle] at h
    simpa [hidle] using h
  | cons first rest =>
    rw [hidle] at h
    refine List.Perm.trans ?_ h
    simp only [Option.getD_some, List.map_cons, List.append_assoc, List.cons_append]
    exact List.perm_middle

theorem perm_release {client : κ} {before behind : List (κ × α)} (consistent : Bool)
    (hheld : s.held = before ++ (client, handler) :: behind) :
    (all { s with
      pool := s.pool.release handler consistent
      held := before ++ behind
      dropped := if s.pool.accepts consistent then s.dropped else handler :: s.dropped }).Perm
      s.all := by
  classical
  refine List.perm_iff_count.mpr fun a => ?_
  unfold all
  rw [idle_release, hheld]
  by_cases haccepts : s.pool.accepts consistent <;>
    simp only [haccepts, if_true, List.count_append, List.count_cons, List.map_append,
      List.map_cons, Bool.false_eq_true, if_false] <;> omega

theorem Step.kept (h : Step s call s') (hs : Kept capacity s) : Kept capacity s' := by
  obtain ⟨hnodup, hperm, hcapacity, hlength⟩ := hs
  cases h with
  | acquire client hnew =>
    refine ⟨?_, perm_acquire client hperm, ?_, ?_⟩
    · by_cases hidle : s.pool.idle = []
      · simp [hidle, hnodup, hnew hidle]
      · simp [hidle, hnodup]
    · show (s.pool.acquire fun _ => _).2.capacity = capacity
      rw [← hcapacity]
      unfold HandlerPool.acquire take?
      cases s.pool.idle <;> rfl
    · show (s.pool.acquire fun _ => _).2.idle.length ≤ capacity
      rw [idle_acquire, List.length_tail]
      omega
  | release consistent hheld =>
    refine ⟨hnodup, (perm_release consistent hheld).trans hperm, ?_, ?_⟩
    · show (s.pool.release _ consistent).capacity = capacity
      rw [← hcapacity]
      unfold HandlerPool.release
      split <;> rfl
    · show (s.pool.release _ consistent).idle.length ≤ capacity
      rw [idle_release]
      by_cases haccepts : s.pool.accepts consistent
      · have hroom : s.pool.idle.length < s.pool.capacity := by
          simp only [accepts, Bool.and_eq_true, decide_eq_true_eq] at haccepts
          exact haccepts.2
        rw [if_pos haccepts, List.length_cons]
        omega
      · rw [if_neg haccepts]
        exact hlength
  | clear =>
    refine ⟨hnodup, List.Perm.trans ?_ hperm, hcapacity, Nat.zero_le _⟩
    unfold all
    rw [idle_clear, List.nil_append, ← List.append_assoc]
    exact List.perm_append_comm.append_right _

theorem Run.kept (h : Run s calls s') (hs : Kept capacity s) : Kept capacity s' := by
  induction h with
  | refl => exact hs
  | cons hstep _ ih => exact ih (hstep.kept hs)

theorem mem_all : handler ∈ s.all ↔ ∃ place, s.At handler place := by
  simp only [all, List.mem_append, List.mem_map, Prod.exists, exists_eq_right]
  constructor
  · rintro ((hidle | ⟨client, hheld⟩) | hdropped)
    · exact ⟨.idle, hidle⟩
    · exact ⟨.client client, hheld⟩
    · exact ⟨.dropped, hdropped⟩
  · rintro ⟨place, hplace⟩
    cases place with
    | idle => exact .inl (.inl hplace)
    | client client => exact .inl (.inr ⟨client, hplace⟩)
    | dropped => exact .inr hplace

-- No handler stands in the list of all handlers twice, so that no two places have it.
theorem Kept.unique (h : Kept capacity s) {place place' : Place κ} (hplace : s.At handler place)
    (hplace' : s.At handler place') : place = place' := by
  have hnodup : s.all.Nodup := h.perm.nodup_iff.mpr h.nodup
  obtain ⟨hfront, -, hdropped⟩ := List.nodup_append.mp hnodup
  obtain ⟨-, hheld, hidle⟩ := List.nodup_append.mp hfront
  have hidle_held : ∀ client, handler ∈ s.pool.idle → (client, handler) ∉ s.held :=
    fun client hin hout => hidle _ hin _ (List.mem_map_of_mem hout) rfl
  have hidle_dropped : handler ∈ s.pool.idle → handler ∉ s.dropped :=
    fun hin hout => hdropped _ (List.mem_append_left _ hin) _ hout rfl
  have hheld_dropped : ∀ client, (client, handler) ∈ s.held → handler ∉ s.dropped :=
    fun client hin hout =>
      hdropped _ (List.mem_append_right _ (List.mem_map_of_mem hin)) _ hout rfl
  cases place with
  | idle =>
    cases place' with
    | idle => rfl
    | client client => exact absurd hplace' (hidle_held client hplace)
    | dropped => exact absurd hplace' (hidle_dropped hplace)
  | client client =>
    cases place' with
    | idle => exact absurd hplace (hidle_held client hplace')
    | client client' =>
      have hsame := List.inj_on_of_nodup_map hheld hplace hplace' rfl
      exact congrArg (fun entry => Place.client entry.1) hsame
    | dropped => exact absurd hplace' (hheld_dropped client hplace)
  | dropped =>
    cases place' with
    | idle => exact absurd hplace (hidle_dropped hplace')
    | client client => exact absurd hplace (hheld_dropped client hplace')
    | dropped => rfl

theorem Step.dropped_subset (h : Step s call s') : s.dropped ⊆ s'.dropped := by
  cases h with
  | acquire => exact List.Subset.refl _
  | release consistent =>
    show s.dropped ⊆ if s.pool.accepts consistent then s.dropped else _ :: s.dropped
    by_cases haccepts : s.pool.accepts consistent
    · rw [if_pos haccepts]
      exact List.Subset.refl _
    · rw [if_neg haccepts]
      exact List.subset_cons_self _ _
  | clear => exact List.subset_append_right _ _

-- What a client gets has been idle, or is new.
theorem Step.acquire_not_dropped {client : κ} (h : Step s (.acquire client handler) s')
    (hs : Kept capacity s) : handler ∉ s.dropped := by
  intro hdropped
  cases h with
  | acquire client hnew =>
    cases hidle : s.pool.idle with
    | nil =>
      simp only [HandlerPool.acquire, take?, hidle, Option.getD_none] at hdropped
      exact hnew hidle (hs.perm.mem_iff.mp (mem_all.mpr ⟨.dropped, hdropped⟩))
    | cons first rest =>
      simp only [HandlerPool.acquire, take?, hidle, Option.getD_some] at hdropped
      have hfirst : s.At first .idle := by simp [At, hidle]
      have hplaces : Place.idle = Place.dropped := hs.unique hfirst hdropped
      cases hplaces

theorem Run.not_acquired (h : Run s calls s') (hs : Kept capacity s) (hdropped : handler ∈ s.dropped)
    (client : κ) : .acquire client handler ∉ calls := by
  induction h with
  | refl => exact List.not_mem_nil
  | cons hstep _ ih =>
    rintro (_ | ⟨_, hmem⟩)
    · exact hstep.acquire_not_dropped hs hdropped
    · exact ih (hstep.kept hs) (hstep.dropped_subset hdropped) hmem

theorem Step.dropped_of_release {client : κ} {consistent kept : Bool}
    (h : Step s (.release client handler consistent kept) s')
    (hlost : consistent = false ∨ kept = false) : handler ∈ s'.dropped := by
  cases h with
  | release _ hheld =>
    have hrefused : s.pool.accepts consistent = false := by
      rcases hlost with rfl | hkept
      · rfl
      · exact hkept
    show handler ∈ if s.pool.accepts consistent then s.dropped else handler :: s.dropped
    rw [hrefused]
    exact List.mem_cons_self

-- The calls of any clients in any order: at every time each handler that was ever made is in one
-- place, the pool keeps no more handlers than it has room for, and a handler that comes back in no
-- good state or finds no room is handed out no more.
theorem unshared {κ α : Type} {capacity : Nat} {calls : List (Call κ α)} {s : Custody κ α}
    (h : Run (start capacity) calls s) :
    (∀ handler ∈ s.made, ∃! place, s.At handler place) ∧
      (∀ handler place, s.At handler place → handler ∈ s.made) ∧
      (s.pool.idle.Nodup ∧ s.held.Nodup ∧ s.dropped.Nodup) ∧
      s.pool.idle.length ≤ capacity ∧
      ∀ before behind client handler consistent kept,
        calls = before ++ .release client handler consistent kept :: behind →
        consistent = false ∨ kept = false → ∀ other, .acquire other handler ∉ behind := by
  have hs : Kept capacity s := h.kept (kept_start capacity)
  have hnodup : s.all.Nodup := hs.perm.nodup_iff.mpr hs.nodup
  obtain ⟨hfront, hdropped, -⟩ := List.nodup_append.mp hnodup
  obtain ⟨hidle, hheld, -⟩ := List.nodup_append.mp hfront
  refine ⟨fun handler hmade => ?_, fun handler place hplace => ?_,
    ⟨hidle, .of_map _ hheld, hdropped⟩, hs.length_le, ?_⟩
  · obtain ⟨place, hplace⟩ := mem_all.mp (hs.perm.mem_iff.mpr hmade)
    exact ⟨place, hplace, fun other hother => hs.unique hother hplace⟩
  · exact hs.perm.mem_iff.mp (mem_all.mpr ⟨place, hplace⟩)
  · rintro before behind client handler consistent kept rfl hlost other
    obtain ⟨s₁, hbefore, hbehind⟩ := h.split
    obtain _ | ⟨hstep, hrest⟩ := hbehind
    have hs₁ : Kept capacity s₁ := hbefore.kept (kept_start capacity)
    exact hrest.not_acquired (hstep.kept hs₁) (hstep.dropped_of_release hlost) other

-- Two clients at a pool with room for one handler. The second handler that comes back is refused.
def sampleCalls : List (Call String Nat) :=
  [.acquire "a" 1, .acquire "b" 2, .release "a" 1 true true, .release "b" 2 true false,
    .acquire "b" 1]

def sampleEnd : Custody String Nat :=
  { pool := { capacity := 1 }, held := [("b", 1)], dropped := [2], made := [2, 1] }

theorem run_sample : Run (start 1) sampleCalls sampleEnd :=
  .cons (@Step.acquire String Nat (start 1) "a" 1 fun _ => List.not_mem_nil) <|
    .cons (@Step.acquire String Nat _ "b" 2 fun _ => by simp [start]) <|
    .cons (@Step.release String Nat _ "a" 1 [("b", 2)] [] true rfl) <|
    .cons (@Step.release String Nat _ "b" 2 [] [] true rfl) <|
    .cons (@Step.acquire String Nat _ "b" 3 fun hidle => nomatch hidle) (.refl _)

theorem unshared_sample :
    Run (start 1) sampleCalls sampleEnd ∧ (∃! place, sampleEnd.At 2 place) ∧
      sampleEnd.At 2 .dropped ∧ sampleEnd.pool.idle.length ≤ 1 ∧
      ∀ other, .acquire other 2 ∉ [(.acquire "b" 1 : Call String Nat)] := by
  obtain ⟨hplace, -, -, hlength, hlost⟩ := unshared run_sample
  exact ⟨run_sample, hplace 2 (by decide), by simp [At, sampleEnd], hlength,
    hlost [.acquire "a" 1, .acquire "b" 2, .release "a" 1 true true] [.acquire "b" 1] "b" 2 true
      false rfl (.inr rfl)⟩

end Custody
end PageCompiler.HandlerPool
