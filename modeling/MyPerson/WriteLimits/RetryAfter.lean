import MyPerson.WriteLimits.Windows

/-!
# `WriteLimits.RetryAfter` — the wait a refusal names is exact

`_check_windows` at one moment, over one table. A full window has room again from one instant on, the one at
which its `(used - limit + n)`-th oldest event leaves (`retryAfter_spec`); the refusal names the latest of
these instants, in whole seconds from now. The loop of a section reaches the same answer as long as no slot
is given back meanwhile (`loop_alone`), and the purge before it changes nothing (`checkWindows_purge`).

## Contents
- one window over time;
- the decisive window;
- `retry_after_exact`;
- the loop of a section.
-/

namespace MyPerson.WriteLimits

open Lib Lib.SlidingWindow

variable {rows : List WriteEvent} {a : Nat} {w : Window} {limits : Limits} {needs : Needs} {newDialog : Bool}

/-! ## One window over time -/

theorem count_anti {now t : Time} (h : now ≤ t) : count rows a w t ≤ count rows a w now := by
  rw [count_eq_countAfter, count_eq_countAfter]
  exact countAfter_anti (sub_le_sub_right h _) _

/-- From `now` on, only the events that count at `now` are left to count. -/
theorem count_later {now t : Time} (h : now ≤ t) : count rows a w t
    = countAfter (·.atTime) (t - w.width) (rows.filter (eventsCond a w (now - w.width))) := by
  unfold count countAfter
  rw [List.countP_eq_length_filter, List.filter_filter]
  congr 1
  refine List.filter_congr fun e _ => ?_
  unfold eventsCond
  by_cases hlate : t - w.width < e.atTime
  · have hearly : now - w.width < e.atTime := (sub_le_sub_right h _).trans_lt hlate
    simp [hlate, hearly]
  · simp [hlate]

theorem seconds_mono {j k : Nat} (h : j ≤ k) : seconds j ≤ seconds k :=
  mul_le_mul_of_nonneg_right (Int.ofNat_le.mpr h) (by decide)

theorem seconds_succ (k : Nat) : seconds (k + 1) = seconds k + seconds 1 := by
  show ((k + 1 : Nat) : Int) * 1000000 = k * 1000000 + 1 * 1000000
  omega

theorem seconds_nonneg (k : Nat) : 0 ≤ seconds k := mul_nonneg (Int.natCast_nonneg k) (by decide)

theorem ceilSeconds_le {d : Time} {r : Nat} : ceilSeconds d ≤ r ↔ d ≤ seconds r := by
  have hlin : ∀ d : Int, (d + 999999) / 1000000 ≤ r ↔ d ≤ r * 1000000 := by omega
  exact hlin d

theorem lt_of_ceilSeconds {d : Time} {r : Nat} (h : (r : Int) = ceilSeconds d) : seconds r - seconds 1 < d := by
  have hlin : ∀ d : Int, (r : Int) = (d + 999999) / 1000000 → r * 1000000 - 1 * 1000000 < d := by omega
  exact hlin d h

/-- **One window.** A full window that the call can fit has room from one instant on, and `retryAfter` is the
    time until then in whole seconds. -/
theorem retryAfter_spec {now : Time} {limit n : Nat} (hfull : limit < count rows a w now + n) (hle : n ≤ limit) :
    ∃ free, now < free ∧ (∀ t, count rows a w t + n ≤ limit ↔ free ≤ t) ∧
      (retryAfter rows a w now (count rows a w now) limit n : Int) = ceilSeconds (free - now) := by
  obtain ⟨k, hk⟩ : ∃ k, k = count rows a w now + n - limit - 1 := ⟨_, rfl⟩
  have hlen : (rows.filter (eventsCond a w (now - w.width))).length = count rows a w now := rfl
  have hlt : k < (((rows.filter (eventsCond a w (now - w.width))).map (·.atTime)).insertionSort (· ≤ ·)).length := by
    rw [List.length_insertionSort, List.length_map, hlen]
    omega
  obtain ⟨leaving, hleaving⟩ : ∃ leaving, (((rows.filter (eventsCond a w (now - w.width))).map
      (·.atTime)).insertionSort (· ≤ ·))[k]? = some leaving := ⟨_, List.getElem?_eq_getElem hlt⟩
  have hin : now - w.width < leaving := by
    have hmem := (List.perm_insertionSort (· ≤ ·) _).mem_iff.mp (List.mem_of_getElem? hleaving)
    obtain ⟨e, he, rfl⟩ := List.mem_map.mp hmem
    have hcond := (List.mem_filter.mp he).2
    simp only [eventsCond, Bool.and_eq_true, decide_eq_true_eq] at hcond
    exact hcond.2
  refine ⟨leaving + w.width, by linarith, fun t => ?_, ?_⟩
  · by_cases ht : now ≤ t
    · have hleave := countAfter_add_lt_iff hleaving (t - w.width)
      rw [← count_later ht, hlen, le_sub_iff_add_le] at hleave
      rw [← hleave]
      omega
    · -- earlier there were no fewer events
      have hmore : count rows a w now ≤ count rows a w t := count_anti (not_le.mp ht).le
      constructor
      · intro hroom
        omega
      · intro hfree
        linarith
  · have hpos : 1 ≤ ceilSeconds (leaving + w.width - now) := by
      have hone : ∀ d : Int, 0 < d → 1 ≤ (d + 999999) / 1000000 := by omega
      exact hone _ (by linarith)
    have heq : retryAfter rows a w now (count rows a w now) limit n
        = (max 1 (ceilSeconds (leaving + w.width - now))).toNat := by
      unfold retryAfter
      dsimp only
      rw [← hk, hleaving]
    rw [heq, max_eq_right hpos, Int.toNat_of_nonneg (by omega)]

/-! ## The windows of a request -/

/-- The full windows, in the order they are checked. -/
def fullWindows (rows : List WriteEvent) (a : Nat) (limits : Limits) (needs : Needs) (now : Time) (newDialog : Bool) :
    List Full :=
  windows.filterMap (checkWindow rows a limits needs now newDialog)

theorem checkWindow_some {now : Time} {f : Full} (h : checkWindow rows a limits needs now newDialog w = some f) :
    f.window = w ∧ checked limits needs newDialog w = some (f.limit, f.n) ∧ f.limit < count rows a w now + f.n ∧
      f.waitFor = if f.n > f.limit then none
        else some (retryAfter rows a w now (count rows a w now) f.limit f.n) := by
  obtain ⟨⟨limit, n⟩, hchecked, h⟩ := Option.bind_eq_some_iff.mp h
  obtain ⟨hfull, heq⟩ := Option.ite_none_right_eq_some.mp h
  obtain rfl := Option.some.inj heq
  exact ⟨rfl, hchecked, hfull, rfl⟩

/-- A window has room, or the call needs nothing of it. -/
theorem checkWindow_none {now : Time} : checkWindow rows a limits needs now newDialog w = none ↔
    ∀ limit n, checked limits needs newDialog w = some (limit, n) → count rows a w now + n ≤ limit := by
  unfold checkWindow
  cases hchecked : checked limits needs newDialog w with
  | none => exact ⟨fun _ _ _ h => (nomatch h), fun _ => rfl⟩
  | some p =>
      obtain ⟨limit, n⟩ := p
      rw [Option.bind_some]
      dsimp only
      constructor
      · intro h _ _ heq
        cases heq
        by_contra hnot
        rw [if_pos (by omega)] at h
        cases h
      · intro h
        exact if_neg (not_lt.mpr (h limit n rfl))

theorem mem_fullWindows {now : Time} {f : Full} : f ∈ fullWindows rows a limits needs now newDialog ↔
    f.window ∈ windows ∧ checkWindow rows a limits needs now newDialog f.window = some f := by
  unfold fullWindows
  rw [List.mem_filterMap]
  constructor
  · rintro ⟨w, hw, hf⟩
    obtain ⟨rfl, -⟩ := checkWindow_some hf
    exact ⟨hw, hf⟩
  · rintro ⟨hw, hf⟩
    exact ⟨f.window, hw, hf⟩

theorem checkWindows_eq_none {eff : Effective} {tool : String} {t : Time} :
    checkWindows rows eff limits tool needs t newDialog = none ↔
      ∀ w ∈ windows, checkWindow rows eff.accountId limits needs t newDialog w = none := by
  unfold checkWindows
  rw [refuseFull_eq_none, List.filterMap_eq_nil_iff]

/-! ## The decisive window -/

theorem decidesOver_trans {f g h : Full} (hfg : decidesOver g f = false) (hgh : decidesOver h g = false) :
    decidesOver h f = false := by
  unfold decidesOver at *
  cases hf : f.waitFor <;> cases hg : g.waitFor <;> cases hh : h.waitFor <;> simp_all
  omega

theorem decidesOver_self (f : Full) : decidesOver f f = false := by
  unfold decidesOver
  cases f.waitFor <;> simp

theorem foldl_decisive (fs : List Full) : ∀ f : Full,
    let best := fs.foldl (fun best g => if decidesOver g best then g else best) f
    best ∈ f :: fs ∧ ∀ g ∈ f :: fs, decidesOver g best = false := by
  induction fs with
  | nil =>
      intro f
      refine ⟨List.mem_cons_self, fun g hg => ?_⟩
      obtain rfl := List.mem_singleton.mp hg
      exact decidesOver_self g
  | cons x fs ih =>
      intro f
      rw [List.foldl_cons]
      obtain ⟨hmem, hall⟩ := ih (if decidesOver x f then x else f)
      have hfirst := hall _ List.mem_cons_self
      refine ⟨?_, fun g hg => ?_⟩
      · rcases List.mem_cons.mp hmem with heq | hrest
        · rw [heq]
          split
          · exact List.mem_cons_of_mem _ List.mem_cons_self
          · exact List.mem_cons_self
        · exact List.mem_cons_of_mem _ (List.mem_cons_of_mem _ hrest)
      · by_cases hx : decidesOver x f = true
        · rw [if_pos hx] at hall hfirst ⊢
          rcases List.mem_cons.mp hg with rfl | hg
          · -- the first one waits less than the second
            refine decidesOver_trans hfirst ?_
            unfold decidesOver at hx ⊢
            cases hf : g.waitFor <;> cases hg : x.waitFor <;> simp_all
            omega
          · exact hall g hg
        · rw [if_neg hx] at hall hfirst ⊢
          rcases List.mem_cons.mp hg with rfl | hg
          · exact hfirst
          · rcases List.mem_cons.mp hg with rfl | hg
            · exact decidesOver_trans hfirst (by simpa using hx)
            · exact hall g (List.mem_cons_of_mem _ hg)

/-- The window a refusal names is a full one, and no other decides over it. -/
theorem decisive_spec {full : List Full} {f : Full} (h : decisive full = some f) :
    f ∈ full ∧ ∀ g ∈ full, decidesOver g f = false := by
  cases full with
  | nil => cases h
  | cons x fs =>
      obtain rfl := Option.some.inj h
      exact foldl_decisive fs x

/-! ## The wait is exact -/

/-- The request is refused until the last second of the wait, and no more from its end on. -/
structure ExactWait (refusedAt : Time → Prop) (now : Time) (r : Nat) : Prop where
  passes  : ∀ t, now + seconds r ≤ t → ¬ refusedAt t
  refused : ∀ t, t ≤ now + seconds r - seconds 1 → refusedAt t
  /-- No smaller whole number of seconds would do. -/
  least   : ∀ k : Nat, (∀ t, now + seconds k ≤ t → ¬ refusedAt t) → r ≤ k

theorem ExactWait.of_bounds {refusedAt : Time → Prop} {now : Time} {r : Nat}
    (hpasses : ∀ t, now + seconds r ≤ t → ¬ refusedAt t)
    (hrefused : ∀ t, t ≤ now + seconds r - seconds 1 → refusedAt t) : ExactWait refusedAt now r := by
  refine ⟨hpasses, hrefused, fun k hk => ?_⟩
  by_contra hless
  refine hk (now + seconds k) (le_refl _) (hrefused _ ?_)
  have hsec := seconds_mono (not_le.mp hless : k + 1 ≤ r)
  rw [seconds_succ] at hsec
  linarith

/-- A window that is not full now, or has room after the wait, has room from then on. -/
theorem passes_after {now t : Time} {r : Nat} (hr : now + seconds r ≤ t)
    (h : ∀ f, checkWindow rows a limits needs now newDialog w = some f → ∃ wait, f.waitFor = some wait ∧ wait ≤ r) :
    checkWindow rows a limits needs t newDialog w = none := by
  refine checkWindow_none.mpr fun limit n hchecked => ?_
  have hnow : now ≤ t := (le_add_of_nonneg_right (seconds_nonneg r)).trans hr
  cases hf : checkWindow rows a limits needs now newDialog w with
  | none =>
      have hroom := checkWindow_none.mp hf limit n hchecked
      have hmore : count rows a w t ≤ count rows a w now := count_anti hnow
      omega
  | some f =>
      obtain ⟨wait, hwait, hle⟩ := h f hf
      obtain ⟨-, hchecked', hfull, hwaitFor⟩ := checkWindow_some hf
      obtain ⟨rfl, rfl⟩ := Prod.mk.inj (Option.some.inj (hchecked.symm.trans hchecked'))
      by_cases hn : f.n > f.limit
      · rw [if_pos hn, hwait] at hwaitFor
        cases hwaitFor
      · rw [if_neg hn, hwait] at hwaitFor
        obtain rfl := Option.some.inj hwaitFor
        obtain ⟨free, -, hfree, heq⟩ := retryAfter_spec hfull (not_lt.mp hn)
        refine (hfree t).mpr ?_
        have hceil := ceilSeconds_le.mp heq.ge
        have hmono := seconds_mono hle
        linarith

/-- A full window still refuses a second before its wait is over. -/
theorem refused_before {now t : Time} {r : Nat} {f : Full}
    (hf : checkWindow rows a limits needs now newDialog w = some f)
    (hr : f.waitFor = some r) (ht : t ≤ now + seconds r - seconds 1) :
    checkWindow rows a limits needs t newDialog w ≠ none := by
  intro hnone
  obtain ⟨-, hchecked, hfull, hwaitFor⟩ := checkWindow_some hf
  have hroom := checkWindow_none.mp hnone f.limit f.n hchecked
  by_cases hn : f.n > f.limit
  · rw [if_pos hn, hr] at hwaitFor
    cases hwaitFor
  · rw [if_neg hn, hr] at hwaitFor
    obtain rfl := Option.some.inj hwaitFor
    obtain ⟨free, hlater, hfree, heq⟩ := retryAfter_spec hfull (not_lt.mp hn)
    have hroom' := (hfree t).mp hroom
    have hlast := lt_of_ceilSeconds heq
    linarith

/-- **Retry-After.** A refusal of `_check_windows` that names a wait names the least whole number of seconds after
    which the request passes; it names none exactly when the call needs more of a full window than its limit. -/
theorem retry_after_exact (rows : List WriteEvent) (eff : Effective) (limits : Limits) (tool : String)
    (needs : Needs) (now : Time) (newDialog : Bool) (error : WriteLimited)
    (h : checkWindows rows eff limits tool needs now newDialog = some error) :
    (∀ r, error.retryAfter = some r →
      ExactWait (fun t => checkWindows rows eff limits tool needs t newDialog ≠ none) now r) ∧
      (error.retryAfter = none ↔
        ∃ f ∈ fullWindows rows eff.accountId limits needs now newDialog, f.limit < f.n) := by
  obtain ⟨f, hf, rfl⟩ := Option.map_eq_some_iff.mp h
  obtain ⟨hmem, hdecides⟩ := decisive_spec hf
  show (∀ r, f.waitFor = some r → _) ∧ (f.waitFor = none ↔ _)
  have hwait : ∀ g ∈ fullWindows rows eff.accountId limits needs now newDialog, g.waitFor = none ↔ g.limit < g.n := by
    intro g hg
    obtain ⟨-, -, -, hwaitFor⟩ := checkWindow_some (mem_fullWindows.mp hg).2
    rw [hwaitFor]
    by_cases hn : g.n > g.limit
    · rw [if_pos hn]
      exact ⟨fun _ => hn, fun _ => rfl⟩
    · rw [if_neg hn]
      exact ⟨fun hc => (nomatch hc), fun hc => absurd hc hn⟩
  refine ⟨fun r hr => ?_, ?_⟩
  · have hshorter : ∀ g ∈ fullWindows rows eff.accountId limits needs now newDialog,
        ∃ wait, g.waitFor = some wait ∧ wait ≤ r := by
      intro g hg
      have hnot := hdecides g hg
      unfold decidesOver at hnot
      rw [hr] at hnot
      cases hg' : g.waitFor with
      | none =>
          rw [hg'] at hnot
          cases hnot
      | some wait =>
          rw [hg'] at hnot
          exact ⟨wait, rfl, not_lt.mp (of_decide_eq_false hnot)⟩
    apply ExactWait.of_bounds
    · intro t ht hrefused
      refine hrefused (checkWindows_eq_none.mpr fun w hw => passes_after ht fun g hg => ?_)
      exact hshorter g (List.mem_filterMap.mpr ⟨w, hw, hg⟩)
    · intro t ht hnone
      obtain ⟨hw, hcheck⟩ := mem_fullWindows.mp hmem
      exact refused_before hcheck hr ht (checkWindows_eq_none.mp hnone _ hw)
  · constructor
    · intro hnone
      exact ⟨f, hmem, (hwait f hmem).mp hnone⟩
    · rintro ⟨g, hg, hless⟩
      have hnot := hdecides g hg
      unfold decidesOver at hnot
      rw [(hwait g hg).mpr hless] at hnot
      cases hf' : f.waitFor with
      | none => rfl
      | some wait =>
          rw [hf'] at hnot
          cases hnot

/-- Two sends, of two and one allowed in a minute. -/
def twoSends : List WriteEvent :=
  [⟨1, 7, .send, "send_message", some 5, false, seconds 4⟩, ⟨0, 7, .send, "send_message", some 5, false, 0⟩]

def maxAccount (limits : Limits) : Effective := ⟨7, "max", .max, some limits, .account⟩

theorem retry_after_exact_twoSends :
    (∃ error : WriteLimited, error.retryAfter = some 50 ∧
      ExactWait (fun t => checkWindows twoSends (maxAccount { perMinute := some 2 }) { perMinute := some 2 }
        "send_message" (Needs.one .send) t false ≠ none) (seconds 10) 50) ∧
      ∃ f ∈ fullWindows twoSends 7 { perMinute := some 0 } (Needs.one .send) (seconds 10) false, f.limit < f.n := by
  constructor
  · have hwait : (checkWindows twoSends (maxAccount { perMinute := some 2 }) { perMinute := some 2 } "send_message"
        (Needs.one .send) (seconds 10) false).map (·.retryAfter) = some (some 50) := by decide +kernel
    obtain ⟨error, herror, h50⟩ := Option.map_eq_some_iff.mp hwait
    exact ⟨error, h50, (retry_after_exact twoSends _ _ _ _ _ _ error herror).1 50 h50⟩
  · have hwait : (checkWindows twoSends (maxAccount { perMinute := some 0 }) { perMinute := some 0 } "send_message"
        (Needs.one .send) (seconds 10) false).map (·.retryAfter) = some none := by decide +kernel
    obtain ⟨error, herror, hnone⟩ := Option.map_eq_some_iff.mp hwait
    exact (retry_after_exact twoSends _ _ _ _ _ _ error herror).2.mp hnone

/-! ## The loop of a section -/

/-- What the purge of an earlier moment removes lies outside every window. -/
theorem eventsCond_purge {now t : Time} (hw : w ∈ windows) (h : now ≤ t) :
    (purge rows a now).filter (eventsCond a w (t - w.width)) = rows.filter (eventsCond a w (t - w.width)) := by
  unfold purge
  rw [List.filter_filter]
  refine List.filter_congr fun e _ => ?_
  by_cases hcond : eventsCond a w (t - w.width) e = true
  · have hafter : t - w.width < e.atTime := by
      simp only [eventsCond, Bool.and_eq_true, decide_eq_true_eq] at hcond
      exact hcond.2
    have hkept : ¬ e.atTime < now - retention := by
      have hwidth := Window.width_le_retention hw
      intro hold
      linarith
    simp [hcond, hkept]
  · simp [hcond]

theorem checkWindow_purge {now t : Time} (hw : w ∈ windows) (h : now ≤ t) :
    checkWindow (purge rows a now) a limits needs t newDialog w = checkWindow rows a limits needs t newDialog w := by
  unfold checkWindow count retryAfter
  rw [eventsCond_purge hw h]

/-- **Purge.** The check of a later call does not see the purge of an earlier one, nor its own. -/
theorem checkWindows_purge {eff : Effective} {tool : String} {now t : Time} (h : now ≤ t) :
    checkWindows (purge rows eff.accountId now) eff limits tool needs t newDialog
      = checkWindows rows eff limits tool needs t newDialog := by
  unfold checkWindows
  congr 1
  exact List.filterMap_congr fun w hw => checkWindow_purge hw h

/-- The steps of the loop of task `t`. -/
def ownLoop (t : Nat) (_ : State) : Action → Prop
  | .checkWindow t' => t' = t
  | .readRetryAfter t' => t' = t
  | _ => False

/-- The full windows a section still finds in `rest`. -/
def Section.fullOf (c : Section) (rows : List WriteEvent) (newDialog : Bool) (rest : List Window) : List Full :=
  rest.filterMap (checkWindow (c.view rows) c.account c.limits c.job.needs c.now newDialog)

/-- Where the loop of a section stands that will have found the full windows `found`. -/
def LoopAt (c : Section) (rows : List WriteEvent) (newDialog : Bool) (found : List Full) : Phase → Prop
  | .windows c' newDialog' rest full => c' = c ∧ newDialog' = newDialog ∧ full ++ c.fullOf rows newDialog rest = found
  | .retry c' newDialog' w limit used n rest full =>
      c' = c ∧ newDialog' = newDialog ∧
        full ++ (⟨w, limit, used, some (retryAfter (c.view rows) c.account w c.now used limit n), n⟩ : Full) ::
          c.fullOf rows newDialog rest = found
  | .refused error => refuseFull c.eff c.job.tool found = some error
  | .pace c' newDialog' => c' = c ∧ newDialog' = newDialog ∧ found = []
  | _ => False

theorem LoopAt.checkStep {c : Section} {found full : List Full} {rest : List Window}
    (h : full ++ c.fullOf rows newDialog rest = found) :
    LoopAt c rows newDialog found (checkStep c rows newDialog full rest) := by
  cases rest with
  | nil =>
      have hfound : full = found := (List.append_nil full).symm.trans h
      unfold WriteLimits.checkStep
      cases herror : refuseFull c.eff c.job.tool full with
      | some error => exact hfound ▸ herror
      | none => exact ⟨rfl, rfl, hfound ▸ refuseFull_eq_none.mp herror⟩
  | cons w rest =>
      have hnext : c.fullOf rows newDialog (w :: rest)
          = (checkWindow (c.view rows) c.account c.limits c.job.needs c.now newDialog w).toList
            ++ c.fullOf rows newDialog rest := by
        unfold Section.fullOf
        rw [List.filterMap_cons]
        cases checkWindow (c.view rows) c.account c.limits c.job.needs c.now newDialog w <;> rfl
      rw [hnext] at h
      unfold checkWindow at h
      unfold WriteLimits.checkStep
      dsimp only
      cases hchecked : checked c.limits c.job.needs newDialog w with
      | none =>
          rw [hchecked] at h
          exact ⟨rfl, rfl, h⟩
      | some p =>
          obtain ⟨limit, n⟩ := p
          rw [hchecked, Option.bind_some] at h
          dsimp only at h
          show LoopAt c rows newDialog found (if _ then _ else _)
          by_cases hfull : count (c.view rows) c.account w c.now + n > limit
          · rw [if_pos hfull] at h ⊢
            by_cases hn : n > limit
            · rw [if_pos hn] at h ⊢
              exact ⟨rfl, rfl, by rw [List.append_assoc]; exact h⟩
            · rw [if_neg hn] at h ⊢
              exact ⟨rfl, rfl, h⟩
          · rw [if_neg hfull] at h ⊢
            exact ⟨rfl, rfl, h⟩

variable {cfg : Config} {s s' : State} {t : Nat}

/-- **Step.** The loop goes on over the same table. -/
theorem step_loopAt {c : Section} {found : List Full} {act : Action} (hrows : s.rows = rows)
    (h : LoopAt c rows newDialog found (s.phase t)) (hown : ownLoop t s act) (hstep : step cfg s act = some s') :
    s'.rows = rows ∧ LoopAt c rows newDialog found (s'.phase t) := by
  cases stepped hstep with
  | checkWindow hph =>
      obtain rfl := hown
      rw [hph] at h
      obtain ⟨rfl, rfl, hfound⟩ := h
      have hloop := LoopAt.checkStep hfound
      rw [← hrows] at hloop
      unfold State.inSection
      rw [← hrows]
      split <;> exact ⟨rfl, by simpa [State.setPhase, State.unlock] using hloop⟩
  | readRetryAfter hph =>
      obtain rfl := hown
      rw [hph] at h
      obtain ⟨rfl, rfl, hfound⟩ := h
      refine ⟨hrows, ?_⟩
      simp only [State.setPhase, Function.update_self]
      exact ⟨rfl, rfl, by rw [hrows, List.append_assoc]; exact hfound⟩
  | _ => exact hown.elim

/-- **Loop.** A section whose loop no other step disturbs is refused as `_check_windows` over its table refuses,
    and goes on exactly when that passes. -/
theorem loop_alone {c : Section} (hstart : s.phase t = .windows c newDialog windows [])
    (h : Run (step cfg) (ownLoop t) s s') :
    (∀ error, s'.phase t = .refused error →
      checkWindows (c.view s.rows) c.eff c.limits c.job.tool c.job.needs c.now newDialog = some error) ∧
      ∀ c' newDialog', s'.phase t = .pace c' newDialog' →
        checkWindows (c.view s.rows) c.eff c.limits c.job.tool c.job.needs c.now newDialog = none := by
  have hloop : s'.rows = s.rows ∧ LoopAt c s.rows newDialog (c.fullOf s.rows newDialog windows) (s'.phase t) := by
    refine h.invariant (P := fun u => u.rows = s.rows ∧
      LoopAt c s.rows newDialog (c.fullOf s.rows newDialog windows) (u.phase t)) ?_ ⟨rfl, ?_⟩
    · exact fun _ _ _ hu hown hstep => step_loopAt hu.1 hu.2 hown hstep
    · rw [hstart]
      exact ⟨rfl, rfl, rfl⟩
  constructor
  · intro error hrefused
    have hat := hloop.2
    rw [hrefused] at hat
    exact hat
  · intro c' newDialog' hpace
    have hat := hloop.2
    rw [hpace] at hat
    exact refuseFull_eq_none.mpr hat.2.2

end MyPerson.WriteLimits
