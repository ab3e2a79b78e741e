import GreenThreads.Lib.GoInt
import GreenThreads.Metrics

/-!
# GreenThreads — what the histogram of run times counts (`internal/metrics/metrics.go`)

`Record` counts an observation in the first bucket that takes it and in every bucket behind that
one. This is the number of observations up to each bound, which Prometheus expects of a bucket,
because the bounds go up: what one bucket takes, all behind it take too.

* `LatencyHistogram.ofObservations` — the histogram a list of observations should give;
* `LatencyHistogram.record_ofObservations` — `Record` goes from one such histogram to the next;
* `LatencyHistogram.record_cumulative` — what every sequence of calls of `Record` leads to.
-/

namespace GreenThreads.LatencyHistogram

/-- The bounds of the buckets, the last of which is no bound. -/
def bounds : List Int := histogramBounds ++ [infinite]

theorem bounds_sorted : bounds.Pairwise (· ≤ ·) := by decide

/-- The histogram of the observations `ds`: a bucket counts those up to its bound. -/
def ofObservations (ds : List Int) : LatencyHistogram where
  buckets := bounds.map fun le => { le := le, count := ds.countP (· ≤ le) }
  sum := .wrap .w64 ds.sum
  count := ds.length

theorem new_eq : new = ofObservations [] := rfl

/-- The loop of `Record`, a bucket at a time. Induction on the buckets: once a bucket takes `d` the
bounds behind it are no smaller, and before that nothing is counted. -/
theorem bump_eq_map (d : Int) {bs : List LatencyBucket}
    (h : bs.Pairwise fun b b' => b.le ≤ b'.le) :
    bump d bs = bs.map fun b => if d ≤ b.le then { b with count := b.count + 1 } else b := by
  induction bs with
  | nil => rfl
  | cons b bs ih =>
    obtain ⟨hfirst, hrest⟩ := List.pairwise_cons.mp h
    unfold bump
    split
    · next hd =>
      refine List.map_congr_left fun b' hb' => ?_
      have hle : d ≤ b'.le := by
        rcases List.mem_cons.mp hb' with rfl | hin
        · exact hd
        · exact hd.trans (hfirst b' hin)
      rw [if_pos hle]
    · next hd => rw [ih hrest, List.map_cons, if_neg hd]

theorem record_ofObservations (d : Int) (ds : List Int) :
    (ofObservations ds).record d = ofObservations (d :: ds) := by
  have hsorted : (ofObservations ds).buckets.Pairwise fun b b' => b.le ≤ b'.le :=
    List.pairwise_map.mpr bounds_sorted
  have hbuckets : bump d (ofObservations ds).buckets = (ofObservations (d :: ds)).buckets := by
    rw [bump_eq_map d hsorted]
    simp only [ofObservations, List.map_map]
    refine List.map_congr_left fun le _ => ?_
    simp only [Function.comp_apply, List.countP_cons, decide_eq_true_eq]
    split <;> rfl
  have hsum : GoInt.wrap .w64 ((ofObservations ds).sum.val + d)
      = (ofObservations (d :: ds)).sum := by
    simp only [ofObservations, List.sum_cons]
    rw [GoInt.wrap_val_add, Int.add_comm]
  rw [record, hbuckets, hsum]
  rfl

theorem foldl_record (ds seen : List Int) :
    ds.foldl record (ofObservations seen) = ofObservations (ds.reverse ++ seen) := by
  induction ds generalizing seen with
  | nil => rfl
  | cons d ds ih =>
    rw [List.foldl_cons, record_ofObservations, ih, List.reverse_cons, List.append_assoc]
    rfl

theorem ofObservations_countP {ds : List Int} {b : LatencyBucket}
    (hb : b ∈ (ofObservations ds).buckets) : b.count = ds.countP (· ≤ b.le) := by
  obtain ⟨le, -, rfl⟩ := List.mem_map.mp hb
  rfl

theorem ofObservations_monotone (ds : List Int) :
    (ofObservations ds).buckets.Pairwise fun b b' => b.count ≤ b'.count := by
  refine List.pairwise_map.mpr (bounds_sorted.imp fun hle => ?_)
  refine List.countP_mono_left fun d _ hd => decide_eq_true ?_
  exact (of_decide_eq_true hd).trans hle

/-- No observation is above the bound of the last bucket. -/
theorem ofObservations_last {ds : List Int} (h : ∀ d ∈ ds, d ≤ infinite) :
    (ofObservations ds).buckets.getLast? = some { le := infinite, count := ds.length } := by
  have hall : ds.countP (· ≤ infinite) = ds.length :=
    List.countP_eq_length.mpr fun d hd => decide_eq_true (h d hd)
  rw [← hall]
  rfl

/-- After any calls of `Record` on a new histogram, whatever the durations: each bucket counts the
observations up to its bound, so the counts go up from bucket to bucket, and the last one counts
every call. -/
theorem record_cumulative (ds : List (GoInt .w64)) :
    let h := (ds.map GoInt.val).foldl record new
    h.buckets.map LatencyBucket.le = histogramBounds ++ [infinite]
    ∧ (∀ b ∈ h.buckets, b.count = ds.countP fun d => d.val ≤ b.le)
    ∧ h.buckets.Pairwise (fun b b' => b.count ≤ b'.count)
    ∧ h.buckets.getLast? = some { le := infinite, count := h.count }
    ∧ h.count = ds.length := by
  have hfold : (ds.map GoInt.val).foldl record new
      = ofObservations (ds.map GoInt.val).reverse := by
    rw [new_eq, foldl_record, List.append_nil]
  have hrange : ∀ d ∈ (ds.map GoInt.val).reverse, d ≤ infinite := by
    intro d hd
    obtain ⟨d, -, rfl⟩ := List.mem_map.mp (List.mem_reverse.mp hd)
    exact d.le_max
  intro h
  have hcount : h.count = ds.length := by
    simp only [h, hfold, ofObservations, List.length_reverse, List.length_map]
  refine ⟨?_, fun b hb => ?_, ?_, ?_, hcount⟩
  · simp only [h, hfold, ofObservations, List.map_map]
    rfl
  · simp only [h, hfold] at hb
    rw [ofObservations_countP hb, List.countP_reverse, List.countP_map]
    rfl
  · simp only [h, hfold]
    exact ofObservations_monotone _
  · simp only [h, hfold]
    exact ofObservations_last hrange

end GreenThreads.LatencyHistogram
