import CodeZard.Columns
import CodeZard.Recencies
import CodeZard.Runs
import Mathlib.Algebra.Order.Group.Int

namespace CodeZard.RunStores

open Columns Recencies Runs Tables Values

/-- A run as it was put, and the reading of the clock it carries. -/
structure Version (τ : Type) where
  run : Run
  updatedAt : τ

def Version.id {τ : Type} (v : Version τ) : String := v.run.id

structure InMemoryRunStore (τ : Type) where
  runs : Dict String (Version τ) := []
  ttl : τ
  max : Nat := MAX_RUNS

inductive Call (τ : Type)
  | put (v : Version τ)
  | get (runId : String)

namespace InMemoryRunStore

variable {τ : Type} [Sub τ] [LinearOrder τ] (s : InMemoryRunStore τ) (now : τ)

def sweep : InMemoryRunStore τ :=
  let cutoff := now - s.ttl
  let expired := (s.runs.filter fun x => x.2.updatedAt < cutoff).map Prod.fst
  { s with runs := expired.foldl Dict.pop s.runs }

def shrink (max : Nat) : Dict String (Version τ) → Dict String (Version τ)
  | [] => []
  | x :: xs => if max < (x :: xs).length then shrink max xs else x :: xs

def put (v : Version τ) : InMemoryRunStore τ :=
  let s := s.sweep now
  let runs := Dict.set s.runs v.id v
  let runs := Dict.set (Dict.pop runs v.id) v.id v
  { s with runs := shrink s.max runs }

def get (runId : String) : Except Failure (Version τ) × InMemoryRunStore τ :=
  let s := s.sweep now
  match Dict.get s.runs runId with
  | some v => (.ok v, s)
  | none => (.error (.exception "RunNotFoundError" "That run does not exist, or it expired"), s)

def call : Call τ → InMemoryRunStore τ
  | .put v => s.put now v
  | .get runId => (s.get now runId).2

/-- Calls one after the other, each with what the clock reads. -/
def calls (cs : List (τ × Call τ)) : InMemoryRunStore τ := cs.foldl (fun s c => s.call c.1 c.2) s

end InMemoryRunStore

section History

variable {τ : Type}

def Call.versions : Call τ → List (Version τ)
  | .put v => [v]
  | .get _ => []

def puts (cs : List (τ × Call τ)) : List (Version τ) := (cs.flatMap fun c => c.2.versions).reverse

end History

/-- What a store that has been given some versions, the last first, does at a
time. -/
structure Keeps {τ : Type} [Sub τ] [LinearOrder τ] (s : InMemoryRunStore τ) (past : List (Version τ)) (now : τ) : Prop where
  few : s.runs.length ≤ s.max
  fresh : ∀ runId v, (s.get now runId).1 = .ok v → ¬ v.updatedAt < now - s.ttl
  recent : ∀ runId v, row Version.id runId past = some v → ¬ v.updatedAt < now - s.ttl →
    others Version.id runId past < s.max → (s.get now runId).1 = .ok v
  oldest : ∀ v, ∀ runId ∈ Dict.keys (s.sweep now).runs, runId ∉ Dict.keys (s.put now v).runs →
    runId ≠ v.id ∧ ∀ other ∈ Dict.keys (s.put now v).runs,
      (since Version.id other (v :: past)).length < (since Version.id runId (v :: past)).length

/-- The runs that are kept are among those that were put, in the order of their
last puts, and only expired or displaced ones are missing. -/
structure Recent {τ : Type} [Sub τ] [LinearOrder τ] (s : InMemoryRunStore τ) (past : List (Version τ)) (times : List τ) :
    Prop where
  once : (Dict.keys s.runs).Nodup
  few : s.runs.length ≤ s.max
  latest : ∀ x ∈ s.runs, row Version.id x.1 past = some x.2
  ordered : Ordered Version.id past (Dict.keys s.runs)
  kept : ∀ now runId v, (∀ t ∈ times, t ≤ now) → row Version.id runId past = some v → ¬ v.updatedAt < now - s.ttl →
    others Version.id runId past < s.max → runId ∈ Dict.keys s.runs

namespace InMemoryRunStore

variable {τ : Type} [Sub τ] [LinearOrder τ] {s : InMemoryRunStore τ} {now : τ} {v : Version τ} {runId : String}

omit [Sub τ] [LinearOrder τ] in
theorem shrink_eq_drop (max : Nat) (runs : Dict String (Version τ)) : shrink max runs = runs.drop (runs.length - max) := by
  induction runs with
  | nil => rw [shrink, List.drop_nil]
  | cons x xs ih =>
      rw [shrink]
      split
      · rename_i hmany
        rw [ih, List.length_cons, Nat.succ_sub (Nat.le_of_lt_succ hmany), List.drop_succ_cons]
      · rename_i hfew
        rw [Nat.sub_eq_zero_of_le (not_lt.1 hfew), List.drop_zero]

theorem runs_sweep (hn : (Dict.keys s.runs).Nodup) (now : τ) :
    (s.sweep now).runs = s.runs.filter fun x => ¬ x.2.updatedAt < now - s.ttl := by
  rw [sweep]
  dsimp only
  rw [foldl_pop]
  apply List.filter_congr
  intro x hx
  rw [decide_eq_decide, not_iff_not, List.mem_map]
  constructor
  · rintro ⟨y, hy, hyx⟩
    obtain ⟨hmem, hold⟩ := List.mem_filter.1 hy
    obtain rfl : y = x := List.inj_on_of_nodup_map hn hmem hx hyx
    exact of_decide_eq_true hold
  · intro hold
    exact ⟨x, List.mem_filter.2 ⟨hx, decide_eq_true hold⟩, rfl⟩

theorem sublist_sweep (hn : (Dict.keys s.runs).Nodup) (now : τ) : (s.sweep now).runs.Sublist s.runs := by
  rw [runs_sweep hn]
  exact List.filter_sublist

theorem runs_put (s : InMemoryRunStore τ) (now : τ) (v : Version τ) :
    (s.put now v).runs =
      let runs := Dict.pop (s.sweep now).runs v.id ++ [(v.id, v)]
      runs.drop (runs.length - s.max) := by
  have hnew : v.id ∉ Dict.keys (Dict.pop (s.sweep now).runs v.id) := by
    rw [keys_pop, List.mem_filter]
    simp
  rw [put]
  dsimp only
  rw [pop_set, set_of_not_mem hnew, shrink_eq_drop]
  rfl

theorem keys_put (s : InMemoryRunStore τ) (now : τ) (v : Version τ) :
    Dict.keys (s.put now v).runs =
      let ks := (Dict.keys (s.sweep now).runs).filter (fun k => k ≠ v.id) ++ [v.id]
      ks.drop (ks.length - s.max) := by
  rw [runs_put, Dict.keys, List.map_drop, List.map_append]
  dsimp only
  rw [← keys_pop, List.length_append, List.length_append, Dict.keys, List.length_map]
  rfl

theorem get_eq_ok (hn : (Dict.keys s.runs).Nodup) : (s.get now runId).1 = .ok v ↔ (runId, v) ∈ (s.sweep now).runs := by
  have hn' : (Dict.keys (s.sweep now).runs).Nodup := hn.sublist ((sublist_sweep hn now).map _)
  rw [← get_eq_some hn', get]
  cases Dict.get (s.sweep now).runs runId <;> simp

end InMemoryRunStore

section Steps

variable {τ : Type} [AddCommGroup τ] [LinearOrder τ] [IsOrderedAddMonoid τ] {s : InMemoryRunStore τ}
  {past : List (Version τ)} {times : List τ} {now : τ} {v : Version τ} {runId : String}

theorem fresh_of_le {t ttl : τ} (h : t ≤ now) (hfresh : ¬ v.updatedAt < now - ttl) : ¬ v.updatedAt < t - ttl :=
  fun hold => hfresh (hold.trans_le (sub_le_sub_right h ttl))

theorem Recent.sweep (h : Recent s past times) (now : τ) :
    Recent (s.sweep now) past (now :: times) := by
  have hsub := s.sublist_sweep h.once now
  refine ⟨h.once.sublist (hsub.map _), hsub.length_le.trans h.few, fun x hx => h.latest x (hsub.subset hx),
    h.ordered.sublist (hsub.map _), ?_⟩
  intro later runId v hlater hrow hfresh hfew
  obtain ⟨x, hx, rfl⟩ := List.mem_map.1
    (h.kept later runId v (fun t ht => hlater t (List.mem_cons_of_mem _ ht)) hrow hfresh hfew)
  have hv : x.2 = v := Option.some.inj ((h.latest x hx).symm.trans hrow)
  apply List.mem_map_of_mem
  rw [InMemoryRunStore.runs_sweep h.once, List.mem_filter]
  refine ⟨hx, decide_eq_true ?_⟩
  rw [hv]
  exact fresh_of_le (hlater now List.mem_cons_self) hfresh

omit [IsOrderedAddMonoid τ] in
theorem Recent.written (h : Recent s past times) (v : Version τ) :
    ∀ b ∈ (Dict.keys s.runs).filter (fun k => k ≠ v.id) ++ [v.id], (row Version.id b (v :: past)).isSome := by
  intro b hb
  rw [row_cons]
  split
  · rfl
  · rcases List.mem_append.1 hb with hb | hb
    · obtain ⟨x, hx, rfl⟩ := List.mem_map.1 (List.mem_filter.1 hb).1
      rw [h.latest x hx]
      rfl
    · exact absurd (List.mem_singleton.1 hb).symm ‹_›

theorem nodup_moved {ks : List String} (h : ks.Nodup) (k : String) : (ks.filter (fun k' => k' ≠ k) ++ [k]).Nodup := by
  apply (h.filter _).append (List.nodup_singleton k)
  rw [List.disjoint_singleton, List.mem_filter]
  simp

theorem Recent.put (h : Recent s past times) (now : τ) (v : Version τ) :
    Recent (s.put now v) (v :: past) (now :: times) := by
  have hswept := h.sweep now
  have hkeys := s.keys_put now v
  dsimp only at hkeys
  have hmoved := nodup_moved hswept.once v.id
  have hordered := hswept.ordered.write v
  have hwritten := hswept.written v
  generalize hks : (Dict.keys (s.sweep now).runs).filter (fun k => k ≠ v.id) ++ [v.id] = ks
    at hkeys hmoved hordered hwritten
  refine ⟨?_, ?_, ?_, ?_, ?_⟩
  · rw [hkeys]
    exact hmoved.sublist (List.drop_sublist _ _)
  · have hsame : (s.put now v).max = s.max := rfl
    rw [s.runs_put, hsame, List.length_drop]
    omega
  · intro x hx
    rw [s.runs_put] at hx
    rcases List.mem_append.1 (List.mem_of_mem_drop hx) with hx | hx
    · obtain ⟨hx, hne⟩ := List.mem_filter.1 hx
      rw [row_cons, if_neg (Ne.symm (of_decide_eq_true hne))]
      exact hswept.latest x hx
    · rw [List.mem_singleton.1 hx, row_cons, if_pos rfl]
  · rw [hkeys]
    exact hordered.sublist (List.drop_sublist _ _)
  · intro later runId w hlater hrow hfresh hfew
    have hmem : runId ∈ ks := by
      rw [← hks, List.mem_append, List.mem_filter, List.mem_singleton]
      by_cases hid : v.id = runId
      · exact .inr hid.symm
      · rw [row_cons, if_neg hid] at hrow
        refine .inl ⟨?_, decide_eq_true (Ne.symm hid)⟩
        exact hswept.kept later runId w hlater hrow hfresh ((others_cons_of_ne hid past).trans_lt hfew)
    by_contra hgone
    rw [hkeys] at hgone
    exact absurd (hordered.others_of_dropped hmoved hwritten hmem hgone) (not_le.2 hfew)

theorem Recent.call (h : Recent s past times) (now : τ) (c : Call τ) :
    Recent (s.call now c) (c.versions ++ past) (now :: times) := by
  cases c with
  | put v => exact h.put now v
  | get runId =>
      have hsame : (s.get now runId).2 = s.sweep now := by
        rw [InMemoryRunStore.get]
        cases Dict.get (s.sweep now).runs runId <;> rfl
      rw [InMemoryRunStore.call, hsame]
      exact h.sweep now

theorem Recent.keeps (h : Recent s past times) (hmax : 1 ≤ s.max) (hnow : ∀ t ∈ times, t ≤ now) : Keeps s past now := by
  have hswept := h.sweep now
  refine ⟨h.few, ?_, ?_, ?_⟩
  · intro runId v hget
    rw [InMemoryRunStore.get_eq_ok h.once, InMemoryRunStore.runs_sweep h.once, List.mem_filter] at hget
    exact of_decide_eq_true hget.2
  · intro runId v hrow hfresh hfew
    have hreached : ∀ t ∈ now :: times, t ≤ now := List.forall_mem_cons.2 ⟨le_refl now, hnow⟩
    obtain ⟨x, hx, rfl⟩ := List.mem_map.1 (hswept.kept now runId v hreached hrow hfresh hfew)
    obtain rfl : x.2 = v := Option.some.inj ((hswept.latest x hx).symm.trans hrow)
    exact (InMemoryRunStore.get_eq_ok h.once).2 hx
  · intro v runId hmem hgone
    have hmoved := nodup_moved hswept.once v.id
    have hordered := hswept.ordered.write v
    rw [s.keys_put] at hgone ⊢
    dsimp only at hgone ⊢
    have hne : runId ≠ v.id := by
      rintro rfl
      have hothers := hordered.others_of_dropped hmoved (hswept.written v) (by simp) hgone
      have hnone : others Version.id v.id (v :: past) = 0 := by
        rw [others, since_cons_self]
        rfl
      omega
    refine ⟨hne, fun other hother => ?_⟩
    apply hordered.since_lt_of_dropped _ hgone hother
    exact List.mem_append_left _ (List.mem_filter.2 ⟨hmem, decide_eq_true hne⟩)

omit [IsOrderedAddMonoid τ] in
theorem recent_init (ttl : τ) (max : Nat) : Recent ({ ttl := ttl, max := max } : InMemoryRunStore τ) [] [] where
  once := List.nodup_nil
  few := Nat.zero_le _
  latest := by simp
  ordered := .nil
  kept _ _ _ _ hrow := by cases hrow

theorem Recent.calls (h : Recent s past times) (cs : List (τ × Call τ)) :
    Recent (s.calls cs) (puts cs ++ past) ((cs.map Prod.fst).reverse ++ times) := by
  induction cs generalizing s past times with
  | nil => exact h
  | cons c cs ih =>
      have hputs : puts (c :: cs) ++ past = puts cs ++ (c.2.versions ++ past) := by
        have hone : c.2.versions.reverse = c.2.versions := by cases c.2 <;> rfl
        rw [puts, List.flatMap_cons, List.reverse_append, hone, List.append_assoc]
        rfl
      rw [hputs, List.map_cons, List.reverse_cons, List.append_assoc]
      exact ih (h.call c.1 c.2)

omit [IsOrderedAddMonoid τ] in
theorem calls_bounds (s : InMemoryRunStore τ) (cs : List (τ × Call τ)) :
    (s.calls cs).ttl = s.ttl ∧ (s.calls cs).max = s.max := by
  induction cs generalizing s with
  | nil => exact ⟨rfl, rfl⟩
  | cons c cs ih =>
      have hone : (s.call c.1 c.2).ttl = s.ttl ∧ (s.call c.1 c.2).max = s.max := by
        cases c.2 with
        | put v => exact ⟨rfl, rfl⟩
        | get runId =>
            rw [InMemoryRunStore.call, InMemoryRunStore.get]
            cases Dict.get (s.sweep c.1).runs runId <;> exact ⟨rfl, rfl⟩
      obtain ⟨httl, hmax⟩ := ih (s.call c.1 c.2)
      exact ⟨httl.trans hone.1, hmax.trans hone.2⟩

end Steps

/-- Two runs fill the store, and the older one is put again before a third. -/
def renewed : List (Int × Call Int) :=
  [(0, .put ⟨Run.start "a" "kept" "", 0⟩), (1, .put ⟨Run.start "b" "filler" "", 1⟩), (2, .put ⟨Run.start "a" "renewed" "", 2⟩),
    (3, .put ⟨Run.start "c" "newcomer" "", 3⟩)]

/-- After any calls the store holds what is recent, as long as the clock has not
gone back. -/
theorem keeps_recent {τ : Type} [AddCommGroup τ] [LinearOrder τ] [IsOrderedAddMonoid τ] (ttl : τ) (max : Nat)
    (hmax : 1 ≤ max) (cs : List (τ × Call τ)) (now : τ) (hclock : ∀ c ∈ cs, c.1 ≤ now) :
    (InMemoryRunStore.calls { ttl := ttl, max := max } cs).ttl = ttl ∧
      (InMemoryRunStore.calls { ttl := ttl, max := max } cs).max = max ∧
        Keeps (InMemoryRunStore.calls { ttl := ttl, max := max } cs) (puts cs) now := by
  obtain ⟨httl, hbound⟩ := calls_bounds { ttl := ttl, max := max } cs
  have hrecent := (recent_init ttl max).calls cs
  rw [List.append_nil, List.append_nil] at hrecent
  refine ⟨httl, hbound, hrecent.keeps (hbound.symm ▸ hmax) ?_⟩
  intro t ht
  obtain ⟨c, hc, rfl⟩ := List.mem_map.1 (List.mem_reverse.1 ht)
  exact hclock c hc

theorem keeps_recent_renewed : Keeps (InMemoryRunStore.calls { ttl := (60 : Int), max := 2 } renewed) (puts renewed) 4 ∧
    ((InMemoryRunStore.calls { ttl := (60 : Int), max := 2 } renewed).get 4 "a").1 = .ok ⟨Run.start "a" "renewed" "", 2⟩ := by
  obtain ⟨_, _, h⟩ := keeps_recent (60 : Int) 2 (by decide) renewed 4 (by decide)
  exact ⟨h, h.recent "a" _ rfl (by decide) (by decide)⟩

section Refinement

variable {τ : Type} [Sub τ] [LinearOrder τ] {s : InMemoryRunStore τ}

def untimed (s : InMemoryRunStore τ) : RunStore where
  maxRuns := s.max
  runs := s.runs.map fun x => x.2.run

/-- The runs that have not been written for too long. -/
def expired (s : InMemoryRunStore τ) (now : τ) : List String :=
  (s.runs.filter fun x => x.2.updatedAt < now - s.ttl).map Prod.fst

theorem untimed_sweep (hids : ∀ x ∈ s.runs, x.1 = x.2.id) (now : τ) :
    untimed (s.sweep now) = (untimed s).sweep (expired s now) := by
  have hruns : (s.sweep now).runs = s.runs.filter fun x => x.1 ∉ expired s now := foldl_pop _ _
  have hmax : (s.sweep now).max = s.max := rfl
  rw [untimed, hmax, hruns, RunStore.sweep, untimed, List.filter_map]
  congr 2
  apply List.filter_congr
  intro x hx
  simp [hids x hx, Version.id]

theorem untimed_put (hids : ∀ x ∈ s.runs, x.1 = x.2.id) (now : τ) (v : Version τ) :
    untimed (s.put now v) = ((untimed s).sweep (expired s now)).put v.run := by
  have hkept : (Dict.pop (s.sweep now).runs v.id).map (fun x => x.2.run) =
      ((s.sweep now).runs.map fun x => x.2.run).filter fun r => r.id ≠ v.run.id := by
    rw [List.filter_map, Dict.pop]
    congr 1
    apply List.filter_congr
    intro x hx
    have hmem : x ∈ s.runs := by
      rw [show (s.sweep now).runs = s.runs.filter _ from foldl_pop _ _] at hx
      exact List.mem_of_mem_filter hx
    simp [hids x hmem, Version.id]
  rw [← untimed_sweep hids, untimed, s.runs_put, List.map_drop]
  rw [List.map_append, hkept, RunStore.put]
  simp only [untimed, List.map_cons, List.map_nil, List.length_append, List.length_cons, List.length_nil]
  rw [← hkept, List.length_map]
  rfl

theorem untimed_get (hids : ∀ x ∈ s.runs, x.1 = x.2.id) (now : τ) (runId : String) :
    (s.get now runId).1.map Version.run = ((untimed s).sweep (expired s now)).get runId := by
  have hrow : ((untimed s).sweep (expired s now)).find runId = (Dict.get (s.sweep now).runs runId).map Version.run := by
    have hids' : ∀ x ∈ (s.sweep now).runs, x.1 = x.2.id := by
      intro x hx
      rw [show (s.sweep now).runs = s.runs.filter _ from foldl_pop _ _] at hx
      exact hids x (List.mem_of_mem_filter hx)
    rw [← untimed_sweep hids, RunStore.find, untimed, Dict.get]
    dsimp only
    generalize (s.sweep now).runs = runs at hids'
    induction runs with
    | nil => rfl
    | cons x runs ih =>
        have hx : x.1 = x.2.run.id := hids' x List.mem_cons_self
        rw [List.map_cons, row_cons, row_cons, hx]
        split
        · rfl
        · exact ih fun y hy => hids' y (List.mem_cons_of_mem x hy)
  rw [RunStore.get, hrow, InMemoryRunStore.get]
  cases Dict.get (s.sweep now).runs runId <;> rfl

end Refinement

end CodeZard.RunStores
