import Crewquarters.Lib.Tasks
import Crewquarters.TestCalls

/-!
# Test calls and the minute between them

The time of a test call is noted when its credentials are there, and not when it passes the check.
As long as no other request dials in between, the last dial is the one that was noted.
-/

namespace Crewquarters

open List Option

namespace TestCalls

variable {s t : TestCalls} {n : ℕ} {c : ℚ} {k : ℕ}

/-- A request that dials is the first to do so since it passed the check. -/
def undisturbed : TestCallAction → TestCalls → Bool
  | .credentials n true, s => s.requests[n]?.all fun
    | .loading _ before => before = s.dials.length
    | _ => true
  | _, _ => true

theorem of_set {m : ℕ} {p q : TestCallPhase} (hm : (s.requests.set n q)[m]? = some p)
    (hp : p ≠ q) : s.requests[m]? = some p := by
  rw [getElem?_set] at hm
  split_ifs at hm
  · exact absurd (some.inj hm).symm hp
  · exact hm

theorem of_append {p : TestCallPhase} {destination : Bool} {now : ℚ}
    (hn : (s.requests ++ [s.checked destination now])[n]? = some p) :
    s.requests[n]? = some p ∨ p = s.checked destination now := by
  exact (Tasks.getElem?_append_singleton hn).imp_right And.right

/-- The dials are those of the requests that have dialed. -/
structure Told (s : TestCalls) : Prop where
  dialed : ∀ d ∈ s.dials, s.requests[d.1]? = some (.dialed d.2)
  sent : ∀ (n : ℕ) c, s.requests[n]? = some (.dialed c) → (n, c) ∈ s.dials

namespace Told

variable (h : Told s)
include h

theorem arrive (destination : Bool) (now : ℚ) : Told { s with
    clock := now
    requests := s.requests ++ [s.checked destination now] } := by
  refine ⟨fun d hd => ?_, fun n c hn => ?_⟩
  · have hn := h.dialed d hd
    rw [getElem?_append_left (List.getElem?_eq_some_iff.1 hn).1, hn]
  · rcases of_append hn with hn | hn
    · exact h.sent n c hn
    · unfold checked at hn
      split_ifs at hn

theorem ne_of_loading (hn : s.requests[n]? = some (.loading c k)) {d : ℕ × ℚ} (hd : d ∈ s.dials) :
    n ≠ d.1 := by
  rintro rfl
  cases hn.symm.trans (h.dialed d hd)

theorem failed (hn : s.requests[n]? = some (.loading c k)) :
    Told { s with requests := s.requests.set n .failed } := by
  refine ⟨fun d hd => ?_, fun m c hm => h.sent m c (of_set hm nofun)⟩
  rw [getElem?_set_ne (h.ne_of_loading hn hd), h.dialed d hd]

theorem dial (hn : s.requests[n]? = some (.loading c k)) : Told { s with
    lastTestCall := c
    requests := s.requests.set n (.dialed c)
    dials := s.dials ++ [(n, c)] } := by
  refine ⟨fun d hd => ?_, fun m c' hm => ?_⟩
  · rcases mem_append.1 hd with hd | hd
    · rw [getElem?_set_ne (h.ne_of_loading hn hd), h.dialed d hd]
    · rw [mem_singleton.1 hd, getElem?_set_self (List.getElem?_eq_some_iff.1 hn).1]
  · rw [getElem?_set] at hm
    split_ifs at hm with hnm
    · cases hm
      simp [hnm]
    · exact mem_append_left _ (h.sent m c' hm)

end Told

/-- The dials are a minute apart, and a request that nobody has overtaken since it passed the check
may be next. -/
structure Apart (s : TestCalls) : Prop where
  noted : ∀ d ∈ s.dials, d.2 ≤ s.lastTestCall
  spaced : ∀ d ∈ s.dials, ∀ e ∈ s.dials, d.1 ≠ e.1 → testCallIntervalSeconds ≤ |d.2 - e.2|
  waited : ∀ (n : ℕ) c k, s.requests[n]? = some (.loading c k) → k ≤ s.dials.length
    ∧ (k = s.dials.length → testCallIntervalSeconds ≤ c - s.lastTestCall)

namespace Apart

variable (h : Apart s)
include h

theorem arrive (destination : Bool) (now : ℚ) : Apart { s with
    clock := now
    requests := s.requests ++ [s.checked destination now] } := by
  refine ⟨h.noted, h.spaced, fun n c k hn => ?_⟩
  rcases of_append hn with hn | hn
  · exact h.waited n c k hn
  · unfold checked at hn
    split_ifs at hn with hdestination hearly
    cases hn
    exact ⟨le_rfl, fun _ => not_lt.1 hearly⟩

theorem failed : Apart { s with requests := s.requests.set n .failed } :=
  ⟨h.noted, h.spaced, fun m c k hm => h.waited m c k (of_set hm nofun)⟩

theorem dial (hn : s.requests[n]? = some (.loading c k)) (hk : k = s.dials.length) : Apart { s with
    lastTestCall := c
    requests := s.requests.set n (.dialed c)
    dials := s.dials ++ [(n, c)] } := by
  have hapart := (h.waited n c k hn).2 hk
  have hbefore : ∀ d ∈ s.dials, testCallIntervalSeconds ≤ c - d.2 := fun d hd => by
    have hnoted := h.noted d hd
    linarith
  have hpositive : (0 : ℚ) < testCallIntervalSeconds := by norm_num [testCallIntervalSeconds]
  refine ⟨fun d hd => ?_, fun d hd e he hne => ?_, fun m c' k' hm => ?_⟩
  · rcases mem_append.1 hd with hd | hd
    · have := hbefore d hd
      linarith
    · rw [mem_singleton.1 hd]
  · rcases mem_append.1 hd with hd | hd <;> rcases mem_append.1 he with he | he
    · exact h.spaced d hd e he hne
    · rw [mem_singleton.1 he, abs_sub_comm]
      exact (hbefore d hd).trans (le_abs_self _)
    · rw [mem_singleton.1 hd]
      exact (hbefore e he).trans (le_abs_self _)
    · rw [mem_singleton.1 hd, mem_singleton.1 he] at hne
      exact absurd rfl hne
  · obtain ⟨hle, -⟩ := h.waited m c' k' (of_set hm nofun)
    rw [length_append, length_singleton]
    exact ⟨by omega, fun heq => by omega⟩

end Apart

/-- What a step does: a request arrives, fails or dials. -/
theorem step_keeps {P : TestCalls → Prop} {a : TestCallAction} (hstep : step a s = some t)
    (harrive : ∀ destination now, P { s with
      clock := now
      requests := s.requests ++ [s.checked destination now] })
    (hfailed : ∀ {n c k}, s.requests[n]? = some (.loading c k) →
      P { s with requests := s.requests.set n .failed })
    (hdial : ∀ {n c k}, a = .credentials n true → s.requests[n]? = some (.loading c k) → P { s with
      lastTestCall := c
      requests := s.requests.set n (.dialed c)
      dials := s.dials ++ [(n, c)] }) : P t := by
  cases a with
  | arrive destination now =>
    simp only [TestCalls.step] at hstep
    split_ifs at hstep
    exact some.inj hstep ▸ harrive destination now
  | credentials n found =>
    simp only [TestCalls.step] at hstep
    split at hstep
    · rename_i c k hn
      cases found with
      | false => exact some.inj hstep ▸ hfailed hn
      | true => exact some.inj hstep ▸ hdial rfl hn
    · cases hstep
  | cancel n =>
    simp only [TestCalls.step] at hstep
    split at hstep
    · rename_i c k hn
      exact some.inj hstep ▸ hfailed hn
    · cases hstep

/-- The requests that have dialed are those with a dial, whatever comes between. While no request
dials between another's check and its dial, they passed the check a minute apart. -/
theorem dials_apart (start : ℚ) (actions : List TestCallAction) (s : TestCalls)
    (hrun : machine.run actions (init start) = some s) :
    (machine.Meets (undisturbed · · = true) actions (init start) →
      ∀ d ∈ s.dials, ∀ e ∈ s.dials, d.1 ≠ e.1 → testCallIntervalSeconds ≤ |d.2 - e.2|)
    ∧ ∀ n c, (n, c) ∈ s.dials ↔ s.requests[n]? = some (.dialed c) := by
  constructor
  · intro hok
    have hinit : Apart (init start) := ⟨by simp [init], by simp [init], by simp [init]⟩
    have hstep : ∀ a s t, Apart s → undisturbed a s = true → step a s = some t → Apart t := by
      intro a s t h hok hstep
      refine step_keeps hstep h.arrive (fun _ => h.failed) fun ha hn => h.dial hn ?_
      simpa [undisturbed, ha, hn] using hok
    exact ((Machine.along_of_meets hstep actions hinit hok).last hrun).spaced
  · have hinit : Told (init start) := ⟨by simp [init], by simp [init]⟩
    have h := Machine.run_keeps (fun a s t (h : Told s) hstep =>
      step_keeps hstep h.arrive h.failed fun _ hn => h.dial hn) actions hinit hrun
    exact fun n c => ⟨h.dialed (n, c), h.sent n c⟩

def oneByOne : List TestCallAction :=
  [.arrive true 0, .credentials 0 true, .arrive true 5, .arrive true 60, .credentials 2 true]

theorem dials_apart_oneByOne : ∃ s, machine.run oneByOne (init 0) = some s ∧
    ∀ d ∈ s.dials, ∀ e ∈ s.dials, d.1 ≠ e.1 → testCallIntervalSeconds ≤ |d.2 - e.2| := by
  refine ⟨⟨60, 60, [.dialed 0, .rateLimited, .dialed 60], [(0, 0), (2, 60)]⟩, by decide +kernel, ?_⟩
  exact (dials_apart 0 oneByOne _ (by decide +kernel)).1 (by decide +kernel)

/-- The second request passes the check while the first awaits its credentials. -/
theorem dials_together : (machine.run [.arrive true 0, .arrive true 1, .credentials 0 true,
    .credentials 1 true] (init 0)).any (fun s => s.dials = [(0, 0), (1, 1)]) = true := by
  decide +kernel

end TestCalls

end Crewquarters
