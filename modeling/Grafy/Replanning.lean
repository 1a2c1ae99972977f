import Grafy.SchedulerAnswers
import Grafy.SchedulerDependencies

/-!
Planning after a Run: what has succeeded is not planned again.
-/
namespace Grafy.Scheduler

open Fingerprints Instances OrderedDict Planning Reachability Results

variable {graph : ExpandedGraph} {fps : Dict InstanceKey Fingerprint} {targets : List InstanceKey}
  {store : ResultStore}

theorem planRun_of_stored (htopo : graph.Topological)
    (hcovers : ∀ key ∈ graph.order, (fps.get? key).isSome)
    (htargets : ∀ target ∈ targets, target ∈ graph.order ∧
      ∀ f, fps.get? target = some f → store.Stored f) :
    ∃ plan, planRun graph fps targets (fun _ => store) = .ok plan ∧ plan.fingerprints = [] := by
  obtain ⟨plan, w, hplan, hplanned, -, hwalked⟩ :=
    planRun_ok htopo hcovers (fun target h => (htargets target h).1) (fun _ => store)
  refine ⟨plan, hplan, List.eq_nil_iff_forall_not_mem.mpr ?_⟩
  intro f hf
  obtain ⟨⟨-, hstale⟩, key, hkey, hkeyf⟩ := hwalked.stale f ((hplanned.keys f).mp hf)
  -- the walk does not leave the targets
  have htarget : key ∈ targets := by
    have hreached := hwalked.reached key (Or.inl hkey)
    clear hkey hkeyf
    induction hreached with
    | target h => exact h
    | source _ hread hopen _ ih => exact absurd ((htargets _ ih).2 _ hread) hopen.choose_spec
  exact hstale ((htargets key htarget).2 f hkeyf)

/-- Once a Run has succeeded, planning its targets again over what is stored
then or later plans nothing, where no dispatch met a Run that would succeed
before it had joined its plan. -/
theorem succeeded_replans_nothing {sha256 : String → Fingerprint} {facts : FingerprintFacts}
    {stores : ℕ → ResultStore} {plan : RunPlan} {concurrency : ℕ} {s : State}
    (h : Reachable (step concurrency) (AtDispatch NoEarlySuccess) (initial store) s)
    {run : RunRef} {res : RunResult} (hres : (s.runObjects run).result = some res)
    (hstatus : res.status = .succeeded) (htopo : graph.Topological)
    (hfps : computeFingerprints sha256 graph facts = .ok fps)
    (hplan : planRun graph fps targets stores = .ok plan)
    (hrun : (s.runObjects run).plan.fingerprints = plan.fingerprints) {later : ResultStore}
    (hlater : s.store.Extends later) (hstores : ∀ k, (stores k).Extends later) :
    ∃ again, planRun graph fps targets (fun _ => later) = .ok again ∧ again.fingerprints = [] := by
  have hjoins : JoinsInOrder s := by
    refine (invariant_of_effects ?_ ?_ ?_ h).2
    · refine ⟨?_, ?_, ?_, ?_⟩ <;> simp [vacantRun, State.joiningCall]
    · exact fun s a p hvalid hs _ _ he => hs.effect hvalid he
    · exact fun s a p hmeets hp hd hvalid hs => hs.dispatch hvalid (hmeets p hp hd)
  obtain ⟨hkeys, hstored⟩ := hjoins.succeeded run res hres hstatus
  obtain ⟨hfingerprinted, hcovers⟩ := computeFingerprints_ok hfps
  obtain ⟨w, hplanned, hdone, hwalked⟩ := planned_of_ok htopo hcovers hplan
  refine planRun_of_stored htopo hcovers (fun target htarget => ?_)
  have hexpanded : target ∈ w.expanded := by simpa [hdone] using hwalked.started target htarget
  obtain ⟨f, hf, hdecided⟩ := hwalked.expanded target hexpanded
  obtain ⟨inst, -, hinst, -⟩ := hfingerprinted.get hf
  refine ⟨(htopo.covers target).mpr ⟨inst, hinst⟩, fun f' hf' => ?_⟩
  obtain rfl : f = f' := Option.some.inj (hf.symm.trans hf')
  rcases hdecided with hfresh | ⟨hstale, -⟩
  · obtain ⟨-, k, hk⟩ := hwalked.fresh f hfresh
    exact (hstores k).stored hk
  · refine hlater.stored (hstored f ?_)
    rw [hkeys, hrun]
    exact (hplanned.keys f).mpr hstale

theorem filter_replans_nothing :
    ∃ s, Reachable (step 1) (AtDispatch NoEarlySuccess) (initial ResultStore.empty) s ∧
      ∃ again, planRun pipeline pipelineFingerprints [keyOf "filter"] (fun _ => s.store) =
        .ok again ∧ again.fingerprints = [] := by
  obtain ⟨plan, w, hplan, -⟩ := planRun_ok pipeline_topological
    (computeFingerprints_ok pipeline_fingerprints).2
    (by decide : ∀ target ∈ [keyOf "filter"], target ∈ pipeline.order) (fun _ => .empty)
  obtain ⟨s, hs, htest⟩ := exists_reachable (step 1) (AtDispatch NoEarlySuccess)
    (atDispatch NoEarlySuccess) (initial ResultStore.empty) (filterRun ++ completes 1)
    (fun s => (s.runObjects 0).result.any (·.status = .succeeded) ∧
      (s.runObjects 0).plan.fingerprints = (pipelinePlan .empty [keyOf "filter"]).fingerprints)
    (fun _ _ _ h => atDispatch_sound h) (by decide +kernel)
  obtain ⟨hsucceeded, hsame⟩ := of_decide_eq_true htest
  obtain ⟨res, hres, hstatus⟩ := (Option.any_eq_true _ _).mp hsucceeded
  rw [pipelinePlan, hplan] at hsame
  exact ⟨s, hs, succeeded_replans_nothing hs hres (of_decide_eq_true hstatus) pipeline_topological
    pipeline_fingerprints hplan hsame (ResultStore.Extends.refl _) (fun _ => empty_extends _)⟩

end Grafy.Scheduler
