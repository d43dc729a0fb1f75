import Crewquarters.Proofs.Inference

/-!
# A run's token budget

What the requests of a run have used, or may have used, stays within `per_run_token_limit` as long
as every check sees every request: in the counter while its estimate is reserved, and in the rows it
has read from then on. The code leaves two gaps. `chat()` gives its reservation back before it
records, so a check in between sees neither; and a check reads the rows before it reads the counter,
so it misses a request that records and gives back between the two.
-/

namespace Crewquarters

open List

namespace LlmPhase

variable {run : String}

/-- The run's own limit has been read from the rows and is compared next. -/
def comparesRun : LlmPhase → Bool
  | comparing check .. => check.scope = .run
  | _ => false

def unadmitted : LlmPhase → Bool
  | reading check _ => check.scope = .run
  | comparing check .. => check.scope = .run
  | _ => false

def isCalling : LlmPhase → Bool
  | calling => true
  | _ => false

def isRecording : LlmPhase → Bool
  | recording _ => true
  | _ => false

def unrecorded : LlmPhase → ℕ
  | recording n | finishing n | cutShort n => n
  | _ => 0

end LlmPhase

namespace LlmRequest

/-- What the request may have used: its estimate, until it is recorded. -/
def spent (r : LlmRequest) : ℕ := if r.sent then r.recorded.getD r.estimate else 0

def outside (r : LlmRequest) : ℕ := if r.phase.held then 0 else r.spent

def admitted (r : LlmRequest) : ℕ :=
  if r.phase.held then if r.phase.unadmitted then 0 else r.estimate else r.spent

def inFlight (r : LlmRequest) : ℕ := if r.sent && r.recorded.isNone then r.estimate else 0

end LlmRequest

open LlmRequest (spent outside inFlight)

namespace Inference

variable {settings : InferenceSettings} {s s' : Inference} {a : LlmAction} {r r' : LlmRequest}
  {tokens : Option ℕ} {touch : Option KeyedAction} {holder : Holder}

def usedBy (holder : Holder) (s : Inference) : ℕ :=
  ((s.usage.filter fun u => u.holder = holder).map LlmUsage.tokens).sum

def totalOf (holder : Holder) (f : LlmRequest → ℕ) (s : Inference) : ℕ :=
  s.total fun r => if r.holder = holder then f r else 0

/-- The recorded tokens of the run and the estimates of its requests that are sent and not recorded
are within the limit; and what a check adds up, the rows it has read and the counter, has every
request of the run. -/
structure WithinBudget (settings : InferenceSettings) (holder : Holder) (s : Inference) : Prop where
  within : s.usedBy holder + s.totalOf holder inFlight ≤ settings.perRunTokenLimit
  counted : ∀ q ∈ s.requests, q.holder = holder → ∀ check rest used,
    q.phase = .comparing check rest used → check.scope = .run →
      s.totalOf holder outside ≤ used

/-- No request records more than its estimate. -/
def WithinEstimate (holder : Holder) : LlmAction → Inference → Prop
  | .record id _, s => ∀ r ∈ s.getRequest id, r.holder = holder →
    r.recorded.getD 0 + r.phase.unrecorded ≤ r.estimate
  | _, _ => True

abbrev NoneRecording (holder : Holder) (s : Inference) : Prop :=
  ∀ r ∈ s.requests, r.holder = holder → r.phase.isRecording = false

abbrev NoneComparing (holder : Holder) (s : Inference) : Prop :=
  ∀ q ∈ s.requests, q.holder = holder → q.phase.comparesRun = false

/-- No check of the run's limit reads the rows while a call of the run waits for its record, no
request of the run gives its reservation back between a check's two reads, and none that was sent
is stopped before it is recorded. -/
def Timely (holder : Holder) : LlmAction → Inference → Prop
  | .read id, s => ∀ q ∈ s.getRequest id, q.holder = holder → q.phase.unadmitted = true →
    s.NoneRecording holder
  | .result id _, s => ∀ r ∈ s.getRequest id, r.holder = holder → r.phase.isCalling = true →
    s.NoneComparing holder
  | .resume id, s => ∀ r ∈ s.getRequest id, r.holder = holder → s.NoneComparing holder
  | .stop id _, s => ∀ r ∈ s.getRequest id, r.holder = holder → r.sent = true →
    r.recorded.isSome = true ∧ s.NoneComparing holder
  | _, _ => True

instance (holder : Holder) : ∀ a s, Decidable (WithinEstimate holder a s)
  | .record id _, s => inferInstanceAs (Decidable (∀ r ∈ s.getRequest id, r.holder = holder →
      r.recorded.getD 0 + r.phase.unrecorded ≤ r.estimate))
  | .arrive .., _ | .reserve .., _ | .read _, _ | .compare _, _ | .adapt _, _ | .start _, _
  | .drop _, _ | .result .., _ | .fail _, _ | .cut .., _ | .disconnect _, _ | .resume _, _
  | .stop .., _ | .close _, _ | .newDay, _ | .keyed _, _ => isTrue trivial

instance (holder : Holder) : ∀ a s, Decidable (Timely holder a s)
  | .read id, s => inferInstanceAs (Decidable (∀ q ∈ s.getRequest id, q.holder = holder →
      q.phase.unadmitted = true → s.NoneRecording holder))
  | .result id _, s => inferInstanceAs (Decidable (∀ r ∈ s.getRequest id, r.holder = holder →
      r.phase.isCalling = true → s.NoneComparing holder))
  | .resume id, s => inferInstanceAs (Decidable (∀ r ∈ s.getRequest id, r.holder = holder →
      s.NoneComparing holder))
  | .stop id _, s => inferInstanceAs (Decidable (∀ r ∈ s.getRequest id, r.holder = holder →
      r.sent = true → r.recorded.isSome = true ∧ s.NoneComparing holder))
  | .arrive .., _ | .reserve .., _ | .compare _, _ | .adapt _, _ | .start _, _ | .drop _, _
  | .fail _, _ | .cut .., _ | .disconnect _, _ | .record .., _ | .close _, _ | .newDay, _
  | .keyed _, _ => isTrue trivial

theorem totalOf_le {f g : LlmRequest → ℕ} (h : ∀ r ∈ s.requests, r.holder = holder → f r ≤ g r) :
    s.totalOf holder f ≤ s.totalOf holder g := by
  refine sum_le_sum fun r hr => ?_
  split_ifs with hh
  · exact h r hr hh
  · exact le_rfl

theorem totalOf_add (f g : LlmRequest → ℕ) :
    s.totalOf holder (fun r => f r + g r) = s.totalOf holder f + s.totalOf holder g := by
  rw [totalOf, totalOf, totalOf, total, total, total, ← sum_map_add]
  congr 1
  refine map_congr_left fun r _ => ?_
  split_ifs <;> rfl

theorem totalOf_push (f : LlmRequest → ℕ) {streaming : Bool} {owner : Holder} {body : ChatRequest}
    {claim : Option ℕ} (hf : ∀ r : LlmRequest, r.phase = .arriving → r.sent = false →
      r.recorded = none → f r = 0) :
    (s.push streaming owner body claim).totalOf holder f = s.totalOf holder f :=
  total_push _ fun r hphase hsent hrecorded => by rw [hf r hphase hsent hrecorded, ite_self]

theorem Sound.totalOf_moved (hs : s.Sound) (holder : Holder) (f : LlmRequest → ℕ)
    (request : s.getRequest r.id = some r) (goes : Goes settings s r a r' tokens touch) :
    (s.moved settings r r' tokens touch).totalOf holder f + (if r.holder = holder then f r else 0)
      = s.totalOf holder f + if r.holder = holder then f r' else 0 := by
  have hsum := hs.total_put (fun r => if r.holder = holder then f r else 0) request goes.id_eq
    (rfl : (s.moved settings r r' tokens touch).requests = _)
  simp only [goes.holder_eq] at hsum
  exact hsum

theorem Sound.totalOf_moved_le (hs : s.Sound) (holder : Holder) (f : LlmRequest → ℕ)
    (request : s.getRequest r.id = some r) (goes : Goes settings s r a r' tokens touch)
    (hle : r.holder = holder → f r' ≤ f r) :
    (s.moved settings r r' tokens touch).totalOf holder f ≤ s.totalOf holder f := by
  have hsum := hs.totalOf_moved holder f request goes
  by_cases hh : r.holder = holder
  · rw [if_pos hh, if_pos hh] at hsum
    have := hle hh
    omega
  · rw [if_neg hh, if_neg hh] at hsum
    omega

theorem Sound.reserved_eq (hs : s.Sound) (holder : Holder) :
    s.reserved holder = s.totalOf holder LlmRequest.reserved := hs.reserved holder

theorem Goes.recorded_eq (h : Goes settings s r a r' tokens touch) :
    r'.recorded.getD 0 = r.recorded.getD 0 + tokens.getD 0 := by
  cases h <;> simp [recordedBy]

theorem usedBy_moved : (s.moved settings r r' tokens touch).usedBy holder
    = s.usedBy holder + if r.holder = holder then tokens.getD 0 else 0 := by
  cases tokens with
  | none => simp [usedBy, moved, usageAfter]
  | some => by_cases hh : r.holder = holder <;> simp [usedBy, moved, usageAfter, record, hh]

def Fits (settings : InferenceSettings) (r : LlmRequest) : Prop :=
  r.recorded.getD 0 ≤ r.estimate ∧ match r.phase with
  | .arriving | .adapting | .prepared | .dropped => r.sent = false ∧ r.recorded = none
  | .reading check rest | .comparing check rest _ => (r.sent = false ∧ r.recorded = none)
      ∧ (check.scope = .run → check.limit = settings.perRunTokenLimit)
      ∧ ∀ c ∈ rest, c.scope ≠ .run
  | .calling | .failing | .recording _ => r.sent = true ∧ r.recorded = none
  | .streaming | .finishing _ | .cutShort _ => r.sent = true
  | .finished => r.sent = true ∧ r.recorded.isSome = true
  | .closing | .ended => (r.sent = false ∧ r.recorded = none)
      ∨ (r.sent = true ∧ r.recorded.isSome = true)

theorem budgetChecks_run (settings : InferenceSettings) (run provider : String)
    (cloud : Option CloudProfile) :
    ∃ rest, budgetChecks settings ("run", run) provider cloud
        = ⟨.run, settings.perRunTokenLimit⟩ :: rest ∧ ∀ c ∈ rest, c.scope ≠ .run := by
  refine ⟨(budgetChecks settings ("run", run) provider cloud).tail, rfl, fun c hc => ?_⟩
  simp only [budgetChecks, if_true, cons_append, nil_append, tail_cons] at hc
  split_ifs at hc
  · rcases mem_append.1 hc with hc | hc
    · obtain ⟨n, -, hn⟩ := mem_flatMap.1 hc
      rw [mem_singleton.1 hn]
      exact nofun
    · obtain ⟨n, -, rfl⟩ := mem_map.1 hc
      exact nofun
  · exact absurd hc not_mem_nil

theorem fits_checking {checks : List BudgetCheck} (hunsent : r.sent = false ∧ r.recorded = none)
    (hhead : ∀ c ∈ checks.head?, c.scope = .run → c.limit = settings.perRunTokenLimit)
    (htail : ∀ c ∈ checks.tail, c.scope ≠ .run) :
    Fits settings { r with phase := .checking checks } := by
  refine ⟨by simp [hunsent.2], ?_⟩
  cases checks with
  | nil => exact hunsent
  | cons c => exact ⟨hunsent, hhead c rfl, htail⟩

theorem fits_exit (hwithin : r.recorded.getD 0 ≤ r.estimate)
    (h : (r.sent = false ∧ r.recorded = none) ∨ (r.sent = true ∧ r.recorded.isSome = true)) :
    Fits settings { r with phase := r.exit } := by
  refine ⟨hwithin, ?_⟩
  unfold LlmRequest.exit
  cases r.streaming <;> exact h

theorem Fits.blank (hfits : Fits settings r) (hsent : r.sent = false) : r.recorded = none := by
  obtain ⟨-, hphase⟩ := hfits
  cases h : r.phase <;> rw [h] at hphase <;> simp_all

theorem Goes.fits (goes : Goes settings s r a r' tokens touch)
    (request : s.getRequest r.id = some r) (hrun : r.holder = ("run", run))
    (hfits : Fits settings r) (hestimate : WithinEstimate ("run", run) a s)
    (htimely : Timely ("run", run) a s) : Fits settings r' := by
  have hblank : r.sent = false → r.recorded = none := hfits.blank
  obtain ⟨hwithin, hphase⟩ := hfits
  cases goes with
  | @reserved provider cloud arriving =>
    rw [arriving] at hphase
    obtain ⟨rest, hchecks, hrest⟩ := budgetChecks_run settings run provider cloud
    rw [← hrun] at hchecks
    refine fits_checking (r := { r with provider }) hphase ?_ ?_
    · simp [hchecks]
    · simpa [hchecks] using hrest
  | read reading =>
    rw [reading] at hphase
    exact ⟨hwithin, hphase⟩
  | @passed check rest used comparing _ =>
    rw [comparing] at hphase
    refine fits_checking hphase.1 (fun c hc hrun => ?_) fun c hc => ?_
    · exact absurd hrun (hphase.2.2 c (mem_of_mem_head? hc))
    · exact hphase.2.2 c (mem_of_mem_tail hc)
  | refused comparing =>
    rw [comparing] at hphase
    exact fits_exit hwithin (.inl hphase.1)
  | called adapting =>
    rw [adapting] at hphase
    exact ⟨hwithin, rfl, hphase.2⟩
  | prepared adapting =>
    rw [adapting] at hphase
    exact ⟨hwithin, hphase⟩
  | started => exact ⟨hwithin, rfl⟩
  | dropped prepared =>
    rw [prepared] at hphase
    exact ⟨hwithin, hphase⟩
  | answered calling =>
    rw [calling] at hphase
    exact ⟨hwithin, hphase⟩
  | resulted streaming =>
    rw [streaming] at hphase
    exact ⟨hwithin, hphase⟩
  | failed calling =>
    rw [calling] at hphase
    exact ⟨hwithin, hphase⟩
  | cut running =>
    refine ⟨hwithin, ?_⟩
    rcases running with h | ⟨m, h⟩ | h <;> rw [h] at hphase
    · exact hphase
    · exact hphase
    · exact hphase.1
  | disconnected => exact ⟨hwithin, hphase⟩
  | errorRecorded failing =>
    rw [failing] at hphase
    refine fits_exit (r := recordedBy r 0) ?_ (.inr ⟨hphase.1, rfl⟩)
    simpa [recordedBy] using hwithin
  | @usageRecorded n outcome recording =>
    have hn := hestimate r request hrun
    rw [recording] at hphase hn
    exact fits_exit (r := recordedBy r n) (by simpa [recordedBy, LlmPhase.unrecorded] using hn)
      (.inr ⟨hphase.1, rfl⟩)
  | @streamRecorded n outcome recording =>
    have hn := hestimate r request hrun
    rcases recording with h | h <;> rw [h] at hphase hn
    · exact ⟨by simpa [recordedBy, LlmPhase.unrecorded] using hn, hphase, rfl⟩
    · exact ⟨by simpa [recordedBy, LlmPhase.unrecorded] using hn, hphase, rfl⟩
  | resumed finished =>
    rw [finished] at hphase
    exact ⟨hwithin, .inr hphase⟩
  | stopped =>
    refine fits_exit hwithin ?_
    cases hsent : r.sent with
    | false => exact .inl ⟨rfl, hblank hsent⟩
    | true => exact .inr ⟨rfl, (htimely r request hrun hsent).1⟩
  | closed closing =>
    rw [closing] at hphase
    exact ⟨hwithin, hphase⟩

theorem Fits.spent_le (hfits : Fits settings r) : r.spent ≤ r.estimate := by
  have hwithin := hfits.1
  unfold spent
  cases hr : r.recorded <;> simp_all <;> split_ifs <;> omega

theorem outside_of_held (h : r.phase.held = true) : r.outside = 0 := by
  rw [outside, if_pos h]

theorem outside_of_not_held (h : r.phase.held = false) : r.outside = r.spent := by
  rw [outside, if_neg (by simp [h])]

theorem spent_of_unsent (h : r.sent = false) : r.spent = 0 := by
  simp [spent, h]

theorem admitted_of_not_held (h : r.phase.held = false) : r.admitted = r.spent := by
  rw [LlmRequest.admitted, if_neg (by simp [h])]

theorem Fits.admitted_le (hfits : Fits settings r) : r.admitted ≤ r.estimate := by
  unfold LlmRequest.admitted
  split_ifs
  · exact Nat.zero_le _
  · exact le_rfl
  · exact hfits.spent_le

theorem Fits.unsent (hfits : Fits settings r) (h : r.phase.unadmitted = true) : r.sent = false := by
  obtain ⟨-, hphase⟩ := hfits
  cases hr : r.phase with
  | reading | comparing =>
    rw [hr] at hphase
    exact hphase.1.1
  | _ => exact absurd (hr ▸ h) nofun

theorem Fits.spent_le_admitted (hfits : Fits settings r) : r.spent ≤ r.admitted := by
  unfold LlmRequest.admitted
  split_ifs with hheld hin
  · rw [spent_of_unsent (hfits.unsent hin)]
  · exact hfits.spent_le
  · exact le_rfl

theorem Goes.outside_le (goes : Goes settings s r a r' tokens touch)
    (request : s.getRequest r.id = some r) (hholder : r.holder = holder) (hfits : Fits settings r)
    (hestimate : WithinEstimate holder a s) (htimely : Timely holder a s) :
    r'.outside ≤ r.outside ∨ s.NoneComparing holder := by
  have hunsent : r.sent = false → r'.sent = r.sent → r'.outside = 0 := by
    intro hsent hsame
    unfold outside
    rw [spent_of_unsent (hsame.trans hsent), ite_self]
  obtain ⟨-, hphase⟩ := hfits
  cases goes with
  | reserved | passed => exact .inl (by rw [outside_of_held (by simp)]; exact Nat.zero_le _)
  | read | called | prepared | started | dropped | resulted | failed | cut | streamRecorded =>
    exact .inl (by rw [outside_of_held rfl]; exact Nat.zero_le _)
  | refused comparing =>
    rw [comparing] at hphase
    exact .inl (by rw [hunsent hphase.1.1 rfl]; exact Nat.zero_le _)
  | answered calling => exact .inr (htimely r request hholder (by rw [calling]; rfl))
  | disconnected => exact .inl le_rfl
  | errorRecorded failing =>
    rw [failing] at hphase
    refine .inl ?_
    rw [outside_of_not_held r.held_exit]
    simp [spent, recordedBy, hphase.1, hphase.2]
  | @usageRecorded n outcome recording =>
    have hn := hestimate r request hholder
    rw [recording] at hphase hn
    refine .inl ?_
    rw [outside_of_not_held r.held_exit, outside_of_not_held (by rw [recording]; rfl)]
    simpa [spent, recordedBy, hphase.1, hphase.2, LlmPhase.unrecorded] using hn
  | resumed => exact .inr (htimely r request hholder)
  | stopped =>
    by_cases hsent : r.sent = true
    · exact .inr (htimely r request hholder hsent).2
    · exact .inl (by rw [hunsent (by simpa using hsent) rfl]; exact Nat.zero_le _)
  | closed closing =>
    refine .inl ?_
    rw [outside_of_not_held rfl, outside_of_not_held (by rw [closing]; rfl)]
    exact le_rfl

theorem Goes.admitted_le (goes : Goes settings s r a r' tokens touch)
    (hrun : r.holder = ("run", run)) (hfits : Fits settings r) (hfits' : Fits settings r') :
    r'.admitted ≤ r.admitted ∨ ∃ check rest used, r.phase = .comparing check rest used
      ∧ check.scope = .run ∧ (used : ℤ) + s.pending check r ≤ settings.perRunTokenLimit
      ∧ r'.reserved = r.reserved ∧ r'.outside = r.outside := by
  have hafter : r'.admitted ≤ r.estimate := goes.estimate_eq ▸ hfits'.admitted_le
  have hheld : r.phase.held = true → r.phase.unadmitted = false → r'.admitted ≤ r.admitted := by
    intro hheld hin
    have hr : r.admitted = r.estimate := by simp [LlmRequest.admitted, hheld, hin]
    exact hr ▸ hafter
  have hspent := hfits.spent_le_admitted
  obtain ⟨-, hphase⟩ := hfits
  cases goes with
  | @reserved provider cloud arriving =>
    obtain ⟨rest, hchecks, -⟩ := budgetChecks_run settings run provider cloud
    rw [← hrun] at hchecks
    refine .inl ?_
    simp [LlmRequest.admitted, hchecks, LlmPhase.checking, LlmPhase.held, LlmPhase.unadmitted]
  | read reading =>
    refine .inl ?_
    simp [LlmRequest.admitted, reading, LlmPhase.held, LlmPhase.unadmitted]
  | @passed check rest used comparing within =>
    have hin : r.phase.held = true := by rw [comparing]; rfl
    by_cases hscope : check.scope = .run
    · rw [comparing] at hphase
      refine .inr ⟨check, rest, used, comparing, hscope, hphase.2.1 hscope ▸ within, ?_, ?_⟩
      · rw [LlmRequest.reserved_of_held hin, LlmRequest.reserved_of_held (by simp)]
      · rw [outside_of_held hin, outside_of_held (by simp)]
    · exact .inl (hheld hin (by simp [comparing, LlmPhase.unadmitted, hscope]))
  | refused | stopped =>
    rw [admitted_of_not_held r.held_exit]
    exact .inl hspent
  | called h | prepared h | started h | dropped h | answered h | resulted h | failed h
  | errorRecorded h | resumed h => exact .inl (hheld (by rw [h]; rfl) (by rw [h]; rfl))
  | cut running =>
    rcases running with h | ⟨m, h⟩ | h <;> exact .inl (hheld (by rw [h]; rfl) (by rw [h]; rfl))
  | streamRecorded h =>
    rcases h with h | h <;> exact .inl (hheld (by rw [h]; rfl) (by rw [h]; rfl))
  | disconnected => exact .inl le_rfl
  | usageRecorded recording =>
    have hr : r.admitted = r.estimate := by
      rw [recording] at hphase
      rw [admitted_of_not_held (by rw [recording]; rfl)]
      simp [spent, hphase.1, hphase.2]
    exact .inl (hr ▸ hafter)
  | closed =>
    rw [admitted_of_not_held rfl]
    exact .inl hspent

theorem Goes.reading_of_comparing (goes : Goes settings s r a r' tokens touch)
    {check : BudgetCheck} {rest : List BudgetCheck} {used : ℕ}
    (h : r'.phase = .comparing check rest used) :
    r.phase = .reading check rest ∧ used = s.used check r ∧ a = .read r.id := by
  have hchecking : ∀ checks, LlmPhase.checking checks ≠ .comparing check rest used := by
    intro checks
    cases checks <;> exact nofun
  have hexit : r.exit ≠ .comparing check rest used := by
    intro h
    exact absurd (h ▸ r.held_exit) nofun
  cases goes with
  | read reading =>
    injection h with hcheck hrest hused
    subst hcheck hrest
    exact ⟨reading, hused.symm, rfl⟩
  | reserved | passed => exact absurd h (hchecking _)
  | refused | errorRecorded | usageRecorded | stopped => exact absurd h hexit
  | disconnected running =>
    rcases running with hr | hr <;> exact absurd (hr.symm.trans h) nofun
  | _ => exact absurd h nofun

/-- The rows are what the requests have recorded; what is admitted is within the limit; and a check
that has read the rows has there whatever no counter holds. -/
structure Budgeted (settings : InferenceSettings) (holder : Holder) (s : Inference) : Prop where
  used : s.usedBy holder = s.totalOf holder fun r => r.recorded.getD 0
  fits : ∀ r ∈ s.requests, r.holder = holder → Fits settings r
  admitted : s.totalOf holder LlmRequest.admitted ≤ settings.perRunTokenLimit
  counted : ∀ q ∈ s.requests, q.holder = holder → ∀ check rest used,
    q.phase = .comparing check rest used → check.scope = .run →
      s.totalOf holder outside ≤ used

namespace Budgeted

theorem spent_eq (hb : s.Budgeted settings holder) :
    s.usedBy holder + s.totalOf holder inFlight = s.totalOf holder spent := by
  rw [hb.used, ← totalOf_add]
  refine le_antisymm (totalOf_le fun r hr hh => ?_) (totalOf_le fun r hr hh => ?_)
  all_goals
    have hblank := (hb.fits r hr hh).blank
    unfold spent inFlight
    cases hsent : r.sent <;> cases hrecorded : r.recorded <;> simp_all

theorem withinBudget (hb : s.Budgeted settings holder) : s.WithinBudget settings holder where
  within := by
    calc s.usedBy holder + s.totalOf holder inFlight
        = s.totalOf holder spent := hb.spent_eq
      _ ≤ s.totalOf holder LlmRequest.admitted :=
          totalOf_le fun r hr hh => (hb.fits r hr hh).spent_le_admitted
      _ ≤ settings.perRunTokenLimit := hb.admitted
  counted := hb.counted

theorem admitted_le (s : Inference) (holder : Holder) :
    s.totalOf holder LlmRequest.admitted
      ≤ s.totalOf holder LlmRequest.reserved + s.totalOf holder outside := by
  rw [← totalOf_add]
  refine totalOf_le fun r _ _ => ?_
  unfold LlmRequest.admitted LlmRequest.reserved outside
  split_ifs <;> omega

theorem outside_le (hb : s.Budgeted settings holder)
    (hnone : s.NoneRecording holder) :
    s.totalOf holder outside ≤ s.usedBy holder := by
  rw [hb.used]
  refine totalOf_le fun r hr hh => ?_
  obtain ⟨-, hphase⟩ := hb.fits r hr hh
  have hrecording := hnone r hr hh
  cases h : r.phase with
  | recording => exact absurd (h ▸ hrecording) nofun
  | arriving =>
    rw [h] at hphase
    simp [outside, spent_of_unsent hphase.1]
  | closing | ended =>
    rw [h] at hphase
    rw [outside_of_not_held (by rw [h]; rfl)]
    rcases hphase with ⟨hsent, -⟩ | ⟨hsent, hsome⟩
    · simp [spent_of_unsent hsent]
    · obtain ⟨n, hn⟩ := Option.isSome_iff_exists.1 hsome
      simp [spent, hsent, hn]
  | _ =>
    rw [outside_of_held (by rw [h]; rfl)]
    exact Nat.zero_le _

theorem moved (hs : s.Sound) (hb : s.Budgeted settings ("run", run))
    (hestimate : WithinEstimate ("run", run) a s) (htimely : Timely ("run", run) a s)
    (request : s.getRequest r.id = some r) (goes : Goes settings s r a r' tokens touch) :
    (s.moved settings r r' tokens touch).Budgeted settings ("run", run) := by
  have hr : r ∈ s.requests := Table.get_mem request
  have hfits' : r.holder = ("run", run) → Fits settings r' := fun hh =>
    goes.fits request hh (hb.fits r hr hh) hestimate htimely
  refine ⟨?_, fun x hx hh => ?_, ?_, fun q hq hh check rest used hphase hscope => ?_⟩
  · have hsum := hs.totalOf_moved ("run", run) (fun r => r.recorded.getD 0) request goes
    rw [usedBy_moved, hb.used]
    rw [goes.recorded_eq] at hsum
    split_ifs at hsum ⊢ <;> omega
  · rcases Table.mem_put hx with rfl | ⟨hx, -⟩
    · exact hfits' (goes.holder_eq.symm.trans hh)
    · exact hb.fits x hx hh
  · by_cases hh : r.holder = ("run", run)
    · rcases goes.admitted_le hh (hb.fits r hr hh) (hfits' hh) with
        hle | ⟨check, rest, used, hphase, hscope, hlimit, hreserved, houtside⟩
      · exact (hs.totalOf_moved_le _ _ request goes fun _ => hle).trans hb.admitted
      · -- the comparison has everything: the counter, and in `used` what no counter holds
        have hpending : s.pending check r = s.totalOf ("run", run) LlmRequest.reserved := by
          rw [pending, hscope, hh, hs.reserved_eq]
        have hcounted := hb.counted r hr hh check rest used hphase hscope
        have hall := admitted_le (s.moved settings r r' tokens touch) ("run", run)
        have h₁ := hs.totalOf_moved_le ("run", run) LlmRequest.reserved request goes
          fun _ => hreserved.le
        have h₂ := hs.totalOf_moved_le ("run", run) outside request goes
          fun _ => houtside.le
        rw [hpending] at hlimit
        omega
    · exact (hs.totalOf_moved_le _ _ request goes fun h => absurd h hh).trans hb.admitted
  · rcases Table.mem_put hq with rfl | ⟨hq, -⟩
    · -- the rows have just been read
      obtain ⟨hreading, rfl, rfl⟩ := goes.reading_of_comparing hphase
      have hrun : r.holder = ("run", run) := goes.holder_eq.symm.trans hh
      have hunadmitted : r.phase.unadmitted = true := by
        simp [hreading, LlmPhase.unadmitted, hscope]
      have hused : s.used check r = s.usedBy ("run", run) := by
        simp only [Inference.used, hscope, hrun, usedBy]
      rw [hused]
      refine le_trans (hs.totalOf_moved_le _ _ request goes fun _ => ?_)
        (hb.outside_le (htimely r request hrun hunadmitted))
      rw [outside_of_held (by rw [hphase]; rfl)]
      exact Nat.zero_le _
    · refine le_trans (hs.totalOf_moved_le _ _ request goes fun hrun => ?_)
        (hb.counted q hq hh check rest used hphase hscope)
      rcases goes.outside_le request hrun (hb.fits r hr hrun) hestimate htimely with hle | hnone
      · exact hle
      · have hcompares : q.phase.comparesRun = true := by
          simp [hphase, LlmPhase.comparesRun, hscope]
        exact absurd (hcompares.symm.trans (hnone q hq hh)) nofun

theorem push (hb : s.Budgeted settings holder) {streaming : Bool} {owner : Holder}
    {body : ChatRequest} {claim : Option ℕ} :
    (s.push streaming owner body claim).Budgeted settings holder where
  used := by
    rw [totalOf_push _ fun r _ _ h => by simp [h]]
    exact hb.used
  fits r hr hh := by
    rcases mem_append.1 hr with hr | hr
    · exact hb.fits r hr hh
    · rw [mem_singleton.1 hr]
      exact ⟨Nat.zero_le _, rfl, rfl⟩
  admitted := by
    rw [totalOf_push _ fun r hphase hsent _ => by
      rw [admitted_of_not_held (by rw [hphase]; rfl), spent_of_unsent hsent]]
    exact hb.admitted
  counted q hq hh check rest used hphase hscope := by
    rw [totalOf_push _ fun r hphase hsent _ => by
      rw [outside_of_not_held (by rw [hphase]; rfl), spent_of_unsent hsent]]
    rcases mem_append.1 hq with hq | hq
    · exact hb.counted q hq hh check rest used hphase hscope
    · rw [mem_singleton.1 hq] at hphase
      exact absurd hphase nofun

theorem did (hs : s.Sound) (hb : s.Budgeted settings ("run", run))
    (hestimate : WithinEstimate ("run", run) a s) (htimely : Timely ("run", run) a s)
    (hdid : s.Did settings a s') : s'.Budgeted settings ("run", run) := by
  have hstore : ∀ store : Keyed, Budgeted settings ("run", run) { s with store } :=
    fun _ => ⟨hb.used, hb.fits, hb.admitted, hb.counted⟩
  cases hdid with
  | arrived => exact hb.push
  | entered => exact (hstore _).push
  | turnedAway => exact hstore _
  | moved request goes => exact hb.moved hs hestimate htimely request goes
  | newDay => exact ⟨hb.used, hb.fits, hb.admitted, hb.counted⟩
  | keyed => exact hstore _

theorem empty : Inference.empty.Budgeted settings holder :=
  ⟨rfl, nofun, Nat.zero_le _, nofun⟩

end Budgeted

/-- In every run in which the recorded tokens are within the estimates and the checks and records
are timely, the run's tokens stay within its budget. -/
theorem withinBudget_of_timely (settings : InferenceSettings) (run : String)
    (actions : List LlmAction)
    (hestimate : (inference settings).Meets (WithinEstimate ("run", run)) actions empty)
    (htimely : (inference settings).Meets (Timely ("run", run)) actions empty) :
    (inference settings).Along (WithinBudget settings ("run", run)) actions empty := by
  have hstep : ∀ a s t, s.Sound ∧ s.Budgeted settings ("run", run) →
      WithinEstimate ("run", run) a s ∧ Timely ("run", run) a s →
      (inference settings).step a s = some t → t.Sound ∧ t.Budgeted settings ("run", run) := by
    intro a s t hs hok hstep
    exact ⟨hs.1.did (did_of_step hstep), hs.2.did hs.1 hok.1 hok.2 (did_of_step hstep)⟩
  have halong := Machine.along_of_meets hstep actions ⟨.empty, .empty⟩ (hestimate.and htimely)
  exact halong.mono fun s hs => hs.2.withinBudget

/-- Two calls that record before the next check. -/
theorem calls_withinBudget :
    let settings : InferenceSettings := ⟨100, 0, 3600, 2000⟩
    let call : ℕ → List LlmAction := fun id => [.arrive false ("run", "r") none ⟨[], 50⟩,
      .reserve id "local" none, .read id, .compare id, .adapt id, .result id 50,
      .record id (.result .null)]
    let actions := call 0 ++ call 1
    ((inference settings).run actions empty).any (fun s => s.usedBy ("run", "r") = 100) = true
      ∧ (inference settings).Along (WithinBudget settings ("run", "r")) actions empty :=
  ⟨by decide,
    withinBudget_of_timely _ _ _ (by decide) (by decide)⟩

/-- A second call of the run is checked between the release and the record of the first: each is
within its estimate of 100 tokens, and the run uses 200 of 100. -/
theorem checked_between :
    let settings : InferenceSettings := ⟨100, 0, 3600, 2000⟩
    let actions : List LlmAction := [.arrive false ("run", "r") none ⟨[], 100⟩,
      .reserve 0 "local" none, .read 0, .compare 0, .adapt 0, .result 0 100,
      .arrive false ("run", "r") none ⟨[], 100⟩, .reserve 1 "local" none, .read 1, .compare 1,
      .adapt 1, .result 1 100, .record 0 (.result .null), .record 1 (.result .null)]
    (inference settings).Meets (WithinEstimate ("run", "r")) actions empty
      ∧ (¬ (inference settings).Along (WithinBudget settings ("run", "r")) actions empty)
      ∧ ((inference settings).run actions empty).any (fun s => s.usedBy ("run", "r") = 200)
        = true := by
  refine ⟨by decide, fun h => ?_, by decide⟩
  have hweak := h.mono (Q := fun s => s.usedBy ("run", "r") ≤ 100)
    fun s hs => (Nat.le_add_right _ _).trans hs.within
  revert hweak
  decide

end Inference

end Crewquarters
