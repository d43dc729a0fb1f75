import Crewquarters.Telephony

/-!
# Calls are dialed once

Which rows there are matters, not what is in them: `Telephony.cores` are the ids, runs and keys of
the rows, and only an insert changes them. The transaction that looks up, counts and inserts
excludes others of its run, so what it has read of the run's rows is still so when it commits.
-/

namespace Crewquarters

open List Option Table

variable {q : CallRequest}

def TelephonyCall.core (c : TelephonyCall) : ℕ × RunId × String := (c.id, c.runId, c.idempotencyKey)

namespace CallPhase

def inserted : CallPhase → Bool
  | dialing | sent | doubting | ended _ | crashed => true
  | checking | locking | holding | counting | inserting => false

def dialed : CallPhase → Bool
  | sent | doubting | ended _ | crashed => true
  | checking | locking | holding | counting | inserting | dialing => false

def unanswered : CallPhase → Bool
  | ended (.error e) => e.code ≠ "OUTCOME_UNKNOWN"
  | _ => false

end CallPhase

namespace Telephony

variable {settings : TelephonySettings} {maxCalls : RunId → ℕ} {s s' : Telephony}
  {a : CallAction} {r : CallRequest}
variable {c : TelephonyCall} {phase : CallPhase}

def cores (s : Telephony) : List (ℕ × RunId × String) := s.calls.map TelephonyCall.core

theorem count_eq (runId : RunId) :
    s.count runId = (s.cores.filter fun k => k.2.1 = runId).length := by
  rw [cores, List.filter_map, length_map]
  rfl

theorem byKey_eq_none {runId : RunId} {key : String} :
    s.byKey runId key = none ↔ ∀ k ∈ s.cores, k.2 ≠ (runId, key) := by
  simp [byKey, cores, TelephonyCall.core]

theorem byKey_mem {runId : RunId} {key : String} (h : s.byKey runId key = some c) :
    c.core ∈ s.cores ∧ c.core.2 = (runId, key) := by
  have hkey := find?_some h
  simp only [Bool.and_eq_true, decide_eq_true_eq] at hkey
  exact ⟨mem_map_of_mem (mem_of_find?_eq_some h), by simp [TelephonyCall.core, hkey]⟩

/-- A repeat was answered with the stored call or with `OUTCOME_UNKNOWN`. -/
def Answered (s : Telephony) (r : CallRequest) (answer : Except PlatformError CallView) : Prop :=
  ∃ id, (id, r.runId, r.key) ∈ s.cores ∧ (answer = .error (outcomeUnknown id)
    ∨ ∃ view, answer = .ok view ∧ view.id = id ∧ view.idempotencyKey = r.key)

def RefusedBefore (settings : TelephonySettings) (r : CallRequest)
    (answer : Except PlatformError CallView) : Prop :=
  (∃ e, settings.checkDestination r.destination = .error e ∧ answer = .error e)
    ∨ ∃ why : NoCredentials, answer = .error why.error

def Fits (settings : TelephonySettings) (maxCalls : RunId → ℕ) (s : Telephony) (r : CallRequest) :
    CallPhase → Prop
  | .counting => ∀ k ∈ s.cores, k.2 ≠ (r.runId, r.key)
  | .inserting => (∀ k ∈ s.cores, k.2 ≠ (r.runId, r.key)) ∧ s.count r.runId < maxCalls r.runId
  | .dialing | .sent | .doubting => (r.id, r.runId, r.key) ∈ s.cores ∧ r.repeated = false
  | .ended answer => r.repeated = true → Answered s r answer ∨ RefusedBefore settings r answer
  | _ => True

/-- Rows, locks and dials agree with the phases of the requests. -/
structure Sound (settings : TelephonySettings) (maxCalls : RunId → ℕ) (s : Telephony) : Prop where
  ids : s.requests.map CallRequest.id = List.range s.requests.length
  keys : (s.cores.map Prod.snd).Nodup
  limit : ∀ runId, s.count runId ≤ maxCalls runId
  owners : ∀ k ∈ s.cores, ∃ r ∈ s.requests, k = (r.id, r.runId, r.key) ∧ r.phase.inserted = true
  locks : ∀ q ∈ s.requests, ∀ r ∈ s.requests, q.phase.locks = true → r.phase.locks = true →
    q.runId = r.runId → q.id = r.id
  fits : ∀ r ∈ s.requests, s.Fits settings maxCalls r r.phase
  repeated : ∀ r ∈ s.requests, r.repeated = true → ∃ k ∈ s.cores, k.2 = (r.runId, r.key)
  dialed : ∀ d ∈ s.dials, (d.request, d.runId, d.key) ∈ s.cores
    ∧ ∀ r ∈ s.requests, r.id = d.request → r.phase.dialed = true ∧ r.repeated = false
  once : (s.dials.map Dial.request).Nodup

namespace Sound

variable (hs : s.Sound settings maxCalls)

include hs

theorem nodup : (s.requests.map CallRequest.id).Nodup := by
  rw [hs.ids]
  exact nodup_range

theorem eq_of_id (hq : q ∈ s.requests) (hr : r ∈ s.requests) (h : q.id = r.id) : q = r :=
  inj_on_of_nodup_map hs.nodup hq hr h

theorem lt_length (hr : r ∈ s.requests) : r.id < s.requests.length := by
  have hmem : r.id ∈ s.requests.map CallRequest.id := mem_map_of_mem hr
  rw [hs.ids] at hmem
  exact mem_range.1 hmem

theorem core_eq {j k : ℕ × RunId × String} (hj : j ∈ s.cores) (hk : k ∈ s.cores)
    (h : j.1 = k.1) : j = k := by
  obtain ⟨q, hq, rfl, -⟩ := hs.owners j hj
  obtain ⟨r, hr, rfl, -⟩ := hs.owners k hk
  obtain rfl := hs.eq_of_id hq hr h
  rfl

theorem key_eq {j k : ℕ × RunId × String} (hj : j ∈ s.cores) (hk : k ∈ s.cores)
    (h : j.2 = k.2) : j = k :=
  inj_on_of_nodup_map hs.keys hj hk h

theorem cores_setCall {c d : TelephonyCall} (hc : s.getCall c.id = some c) (hd : d.core = c.core) :
    (s.setCall d).cores = s.cores := by
  have hid : d.id = c.id := congrArg Prod.fst hd
  simp only [cores, setCall, Table.put, List.map_map]
  refine map_congr_left fun b hb => ?_
  simp only [Function.comp_apply]
  split_ifs with hbd
  · have hcb : c.core = b.core := hs.core_eq (mem_map_of_mem (get_mem hc))
      (mem_map_of_mem hb) (hid.symm.trans hbd.symm)
    rw [hd, hcb]
  · rfl

end Sound

/-- The phase a request can go on to. -/
inductive Goes (settings : TelephonySettings) (maxCalls : RunId → ℕ) (s : Telephony)
    (r : CallRequest) : CallPhase → Prop where
  | connected (at_ : r.phase = .checking) : Goes settings maxCalls s r .locking
  | unconnected {why : NoCredentials} (at_ : r.phase = .checking) :
      Goes settings maxCalls s r (.ended (.error why.error))
  | locked (at_ : r.phase = .locking) (alone : ∀ q ∈ s.requests, q.phase.locks = true →
      q.runId ≠ r.runId) : Goes settings maxCalls s r .holding
  | found {c : TelephonyCall} (at_ : r.phase = .holding) (row : s.byKey r.runId r.key = some c) :
      Goes settings maxCalls s r (.ended c.stored)
  | free (at_ : r.phase = .holding) (row : s.byKey r.runId r.key = none) :
      Goes settings maxCalls s r .counting
  | limited (at_ : r.phase = .counting) :
      Goes settings maxCalls s r (.ended (.error (callLimitReached (maxCalls r.runId))))
  | room (at_ : r.phase = .counting) (below : s.count r.runId < maxCalls r.runId) :
      Goes settings maxCalls s r .inserting
  | beaten {c : TelephonyCall} (at_ : r.phase = .inserting)
      (row : s.byKey r.runId r.key = some c) : Goes settings maxCalls s r (.ended (.ok c.view))
  | answered {answer} (at_ : r.phase = .sent ∨ r.phase = .doubting) :
      Goes settings maxCalls s r (.ended answer)
  | doubted (at_ : r.phase = .sent) : Goes settings maxCalls s r .doubting
  | crashed (at_ : r.phase.live = true) : Goes settings maxCalls s r .crashed

/-- Every way a step can go. -/
inductive Did (settings : TelephonySettings) (maxCalls : RunId → ℕ) (s : Telephony) :
    CallAction → Telephony → Prop where
  | arrived {runId key destination} :
      Did settings maxCalls s (.arrive runId key destination)
        (s.arrive settings runId key destination)
  | went {a : CallAction} {r : CallRequest} {phase : CallPhase} {s' : Telephony}
      (request : s.getRequest r.id = some r) (goes : Goes settings maxCalls s r phase)
      (requests : s'.requests = (s.goto r phase).requests) (cores : s'.cores = s.cores)
      (dials : s'.dials = s.dials) : Did settings maxCalls s a s'
  | inserted {r : CallRequest} (request : s.getRequest r.id = some r)
      (inserting : r.phase = .inserting) (row : s.byKey r.runId r.key = none) :
      Did settings maxCalls s (.insert r.id) (s.insert r)
  | dialed {r : CallRequest} (request : s.getRequest r.id = some r) (dialing : r.phase = .dialing) :
      Did settings maxCalls s (.dial r.id) (s.dial r)
  /-- a callback -/
  | called {a : CallAction} {s' : Telephony} (requests : s'.requests = s.requests)
      (cores : s'.cores = s.cores) (dials : s'.dials = s.dials) : Did settings maxCalls s a s'

theorem getRequest_id {id : ℕ} (h : s.getRequest id = some r) : r.id = id := get_key h

theorem onRequest_eq_some {id : ℕ} {f : CallRequest → Option Telephony}
    (h : s.onRequest id f = some s') :
    ∃ r, r.id = id ∧ s.getRequest r.id = some r ∧ f r = some s' := by
  obtain ⟨r, hr, hthen⟩ := bind_eq_some_iff.1 h
  obtain rfl := getRequest_id hr
  exact ⟨r, rfl, hr, hthen⟩

theorem getCall_id {id : ℕ} (h : s.getCall id = some c) : c.id = id :=
  get_key h

theorem did_answer (hs : s.Sound settings maxCalls) {answer : DialAnswer}
    (hr : s.getRequest r.id = some r) (hsent : r.phase = .sent) (hc : s.getCall c.id = some c) :
    s.Did settings maxCalls a (s.answer r c answer) := by
  cases answer with
  | accepted =>
    simp only [answer, created]
    split
    · exact .went hr (.crashed (by rw [hsent]; rfl)) rfl rfl rfl
    · exact .went hr (.answered (.inl hsent)) rfl (hs.cores_setCall hc rfl) rfl
  | rejected => exact .went hr (.answered (.inl hsent)) rfl (hs.cores_setCall hc rfl) rfl
  | unknown =>
    simp only [answer]
    split_ifs
    · exact .went hr (.doubted hsent) rfl (hs.cores_setCall hc rfl) rfl
    · exact .went hr (.doubted hsent) rfl rfl rfl

theorem did_adopt (hs : s.Sound settings maxCalls) {sid : String} (hc : s.getCall c.id = some c) :
    s.Did settings maxCalls a (s.adopt c sid) := by
  unfold adopt
  split_ifs
  · exact .called rfl rfl rfl
  · exact .called rfl (hs.cores_setCall hc rfl) rfl

theorem did_of_step (hs : s.Sound settings maxCalls)
    (h : (telephony settings maxCalls).step a s = some s') : s.Did settings maxCalls a s' := by
  cases a with
  | arrive =>
    obtain rfl := some.inj h
    exact .arrived
  | credentials =>
    obtain ⟨r, rfl, hr, hthen⟩ := onRequest_eq_some h
    split at hthen
    · obtain rfl := some.inj hthen
      exact .went hr (.connected ‹_›) rfl rfl rfl
    · obtain rfl := some.inj hthen
      exact .went hr (.unconnected ‹_›) rfl rfl rfl
    · exact absurd hthen nofun
  | lock =>
    obtain ⟨r, rfl, hr, hthen⟩ := onRequest_eq_some h
    split at hthen
    · unfold lock at hthen
      split_ifs at hthen with halone
      obtain rfl := some.inj hthen
      refine .went hr (.locked ‹_› fun q hq hlocks hrun => halone ?_) rfl rfl rfl
      simp only [List.any_eq_true, Bool.and_eq_true, decide_eq_true_eq]
      exact ⟨q, hq, hlocks, by rw [hrun]⟩
    · exact absurd hthen nofun
  | lookup =>
    obtain ⟨r, rfl, hr, hthen⟩ := onRequest_eq_some h
    split at hthen
    · obtain rfl := some.inj hthen
      unfold lookup
      split
      · exact .went hr (.found ‹_› ‹_›) rfl rfl rfl
      · exact .went hr (.free ‹_› ‹_›) rfl rfl rfl
    · exact absurd hthen nofun
  | count =>
    obtain ⟨r, rfl, hr, hthen⟩ := onRequest_eq_some h
    split at hthen
    · obtain rfl := some.inj hthen
      unfold limit
      split_ifs with hlimit
      · exact .went hr (.limited ‹_›) rfl rfl rfl
      · exact .went hr (.room ‹_› (not_le.1 hlimit)) rfl rfl rfl
    · exact absurd hthen nofun
  | insert =>
    obtain ⟨r, rfl, hr, hthen⟩ := onRequest_eq_some h
    split at hthen
    · obtain rfl := some.inj hthen
      cases hrow : s.byKey r.runId r.key with
      | none => exact .inserted hr ‹_› hrow
      | some =>
        simp only [insert, hrow]
        exact .went hr (.beaten ‹_› hrow) rfl rfl rfl
    · exact absurd hthen nofun
  | dial =>
    obtain ⟨r, rfl, hr, hthen⟩ := onRequest_eq_some h
    split at hthen
    · obtain rfl := some.inj hthen
      exact .dialed hr ‹_›
    · exact absurd hthen nofun
  | answer =>
    obtain ⟨r, rfl, hr, hthen⟩ := onRequest_eq_some h
    split at hthen
    · obtain ⟨c, hc, rfl⟩ := map_eq_some_iff.1 hthen
      rw [← getCall_id hc] at hc
      exact did_answer hs hr ‹_› hc
    · exact absurd hthen nofun
  | settle =>
    obtain ⟨r, rfl, hr, hthen⟩ := onRequest_eq_some h
    split at hthen
    · obtain ⟨c, -, rfl⟩ := map_eq_some_iff.1 hthen
      exact .went hr (.answered (.inr ‹_›)) rfl rfl rfl
    · exact absurd hthen nofun
  | crash =>
    obtain ⟨r, rfl, hr, hthen⟩ := onRequest_eq_some h
    split_ifs at hthen with hlive
    obtain rfl := some.inj hthen
    exact .went hr (.crashed hlive) rfl rfl rfl
  | adopt =>
    obtain ⟨c, hc, rfl⟩ := map_eq_some_iff.1 h
    rw [← getCall_id hc] at hc
    split_ifs
    · exact did_adopt hs hc
    · exact .called rfl rfl rfl
  | status =>
    obtain ⟨c, hc, rfl⟩ := map_eq_some_iff.1 h
    rw [← getCall_id hc] at hc
    unfold status
    split
    · exact .called rfl (hs.cores_setCall hc rfl) rfl
    · exact .called rfl rfl rfl
  | gather =>
    obtain ⟨c, hc, rfl⟩ := map_eq_some_iff.1 h
    rw [← getCall_id hc] at hc
    unfold gather
    split_ifs
    · exact .called rfl (hs.cores_setCall hc rfl) rfl
    · exact .called rfl rfl rfl

theorem Fits.of_cores (hcores : s'.cores = s.cores) (h : s.Fits settings maxCalls r phase) :
    s'.Fits settings maxCalls r phase := by
  unfold Fits Answered at h ⊢
  simp only [count_eq, hcores] at h ⊢
  exact h

theorem Goes.fits (hs : s.Sound settings maxCalls) (hr : r ∈ s.requests)
    (h : Goes settings maxCalls s r phase) : s.Fits settings maxCalls r phase := by
  have hfits := hs.fits r hr
  cases h with
  | connected | locked | crashed => exact trivial
  | unconnected => exact fun _ => .inr (.inr ⟨_, rfl⟩)
  | @found c at_ row =>
    intro _
    obtain ⟨hmem, hkey⟩ := byKey_mem row
    refine .inl ⟨c.id, ?_, ?_⟩
    · rw [← hkey]
      exact hmem
    · unfold TelephonyCall.stored
      split_ifs
      · exact .inl rfl
      · exact .inr ⟨_, rfl, rfl, congrArg Prod.snd hkey⟩
  | free at_ row => exact byKey_eq_none.1 row
  | limited at_ =>
    intro hrepeated
    obtain ⟨k, hk, hkey⟩ := hs.repeated r hr hrepeated
    rw [at_] at hfits
    exact absurd hkey (hfits k hk)
  | room at_ below =>
    rw [at_] at hfits
    exact ⟨hfits, below⟩
  | beaten at_ row =>
    rw [at_] at hfits
    obtain ⟨hmem, hkey⟩ := byKey_mem row
    exact absurd hkey (hfits.1 _ hmem)
  | answered at_ =>
    intro hrepeated
    have hfresh : r.repeated = false := by
      rcases at_ with at_ | at_ <;> rw [at_] at hfits <;> exact hfits.2
    exact absurd (hrepeated.symm.trans hfresh) nofun
  | doubted at_ =>
    rw [at_] at hfits
    exact hfits

theorem Goes.keeps (h : Goes settings maxCalls s r phase) :
    (r.phase.inserted = true → phase.inserted = true)
      ∧ (r.phase.dialed = true → phase.dialed = true) := by
  cases h with
  | connected at_ | locked at_ | free at_ | room at_ => rw [at_]; exact ⟨nofun, nofun⟩
  | unconnected | found | limited | beaten | answered | doubted | crashed =>
    exact ⟨fun _ => rfl, fun _ => rfl⟩

theorem Goes.locks (h : Goes settings maxCalls s r phase) (hlocks : phase.locks = true) :
    r.phase.locks = true
      ∨ ∀ q ∈ s.requests, q.phase.locks = true → q.runId ≠ r.runId := by
  cases h with
  | locked _ alone => exact .inr alone
  | free at_ | room at_ => rw [at_]; exact .inl rfl
  | connected | unconnected | found | limited | beaten | answered | doubted | crashed =>
    exact absurd hlocks nofun

theorem mem_goto (h : q ∈ (s.goto r phase).requests) :
    q = { r with phase } ∨ (q ∈ s.requests ∧ q.id ≠ r.id) :=
  mem_put h

theorem Sound.moved (hs : s.Sound settings maxCalls) (hr : r ∈ s.requests)
    (hfits : s.Fits settings maxCalls r phase)
    (hinserted : r.phase.inserted = true → phase.inserted = true)
    (hdialed : r.phase.dialed = true → phase.dialed = true)
    (hlocks : phase.locks = true → r.phase.locks = true ∨ ∀ q ∈ s.requests, q.phase.locks = true →
      q.runId ≠ r.runId)
    (hrequests : s'.requests = (s.goto r phase).requests) (hcores : s'.cores = s.cores)
    (hdials : s'.dials = s.dials) : s'.Sound settings maxCalls := by
  have hback : ∀ q ∈ s'.requests, q = { r with phase } ∨ (q ∈ s.requests ∧ q.id ≠ r.id) :=
    fun q hq => mem_goto (hrequests ▸ hq)
  refine ⟨?_, hcores ▸ hs.keys, fun runId => ?_, fun k hk => ?_,
    fun p hp q hq hplocks hqlocks hrun => ?_, fun q hq => ?_, fun q hq hrepeated => ?_,
    fun d hd => ?_, hdials ▸ hs.once⟩
  · rw [hrequests, goto, map_key_put, hs.ids]
    simp [Table.put]
  · rw [count_eq, hcores, ← count_eq]
    exact hs.limit runId
  · rw [hcores] at hk
    obtain ⟨q, hq, rfl, hqinserted⟩ := hs.owners k hk
    rw [hrequests]
    by_cases hid : q.id = r.id
    · obtain rfl := hs.eq_of_id hq hr hid
      exact ⟨{ q with phase }, mem_put_self hq rfl, rfl, hinserted hqinserted⟩
    · exact ⟨q, mem_put_of_mem hq hid, rfl, hqinserted⟩
  · -- a request that has just got the lock is alone with it
    rcases hback p hp with rfl | ⟨hp, hpne⟩ <;> rcases hback q hq with rfl | ⟨hq, hqne⟩
    · rfl
    · rcases hlocks hplocks with hrlocks | halone
      · exact hs.locks r hr q hq hrlocks hqlocks hrun
      · exact absurd hrun.symm (halone q hq hqlocks)
    · rcases hlocks hqlocks with hrlocks | halone
      · exact hs.locks p hp r hr hplocks hrlocks hrun
      · exact absurd hrun (halone p hp hplocks)
    · exact hs.locks p hp q hq hplocks hqlocks hrun
  · refine Fits.of_cores hcores ?_
    rcases hback q hq with rfl | ⟨hq, -⟩
    · exact hfits
    · exact hs.fits q hq
  · rw [hcores]
    rcases hback q hq with rfl | ⟨hq, -⟩
    · exact hs.repeated r hr hrepeated
    · exact hs.repeated q hq hrepeated
  · rw [hdials] at hd
    obtain ⟨hmem, hrequest⟩ := hs.dialed d hd
    refine ⟨hcores ▸ hmem, fun q hq hid => ?_⟩
    rcases hback q hq with rfl | ⟨hq, -⟩
    · obtain ⟨hrdialed, hfresh⟩ := hrequest r hr hid
      exact ⟨hdialed hrdialed, hfresh⟩
    · exact hrequest q hq hid

theorem Sound.dial (hs : s.Sound settings maxCalls) (hr : r ∈ s.requests)
    (hdialing : r.phase = .dialing) : (s.dial r).Sound settings maxCalls := by
  have hfits : s.Fits settings maxCalls r .sent := by
    have hdials := hs.fits r hr
    rwa [hdialing] at hdials
  have hgoto : (s.goto r .sent).Sound settings maxCalls :=
    hs.moved hr hfits (fun _ => rfl) (fun _ => rfl) nofun rfl rfl rfl
  have hnone : ∀ d ∈ s.dials, d.request ≠ r.id := by
    intro d hd hid
    have hdialed := ((hs.dialed d hd).2 r hr hid.symm).1
    rw [hdialing] at hdialed
    exact absurd hdialed nofun
  refine { hgoto with dialed := fun d hd => ?_, once := ?_ }
  · rcases mem_append.1 hd with hd | hd
    · exact hgoto.dialed d hd
    · obtain rfl := mem_singleton.1 hd
      refine ⟨hfits.1, fun q hq hid => ?_⟩
      rcases mem_goto hq with rfl | ⟨-, hne⟩
      · exact ⟨rfl, hfits.2⟩
      · exact absurd hid hne
  · change ((s.dials ++ [Dial.mk r.id r.runId r.key]).map Dial.request).Nodup
    rw [map_append, nodup_append]
    refine ⟨hs.once, by simp, fun id hid id' hid' => ?_⟩
    obtain ⟨d, hd, rfl⟩ := mem_map.1 hid
    obtain rfl : id' = r.id := by simpa using hid'
    exact hnone d hd

theorem arrive_phase (runId : RunId) (key destination : String) :
    ∃ phase : CallPhase, phase.locks = false
      ∧ (∀ id repeated,
        s.Fits settings maxCalls ⟨id, runId, key, destination, repeated, phase⟩ phase)
      ∧ s.arrive settings runId key destination = { s with requests := s.requests
          ++ [⟨s.requests.length, runId, key, destination, (s.byKey runId key).isSome,
            phase⟩] } := by
  cases hcheck : settings.checkDestination destination with
  | error e =>
    refine ⟨.ended (.error e), rfl, ?_, by simp only [arrive, hcheck]⟩
    exact fun _ _ _ => .inr (.inl ⟨e, hcheck, rfl⟩)
  | ok => exact ⟨.checking, rfl, fun _ _ => trivial, by simp only [arrive, hcheck]⟩

theorem Sound.arrived (hs : s.Sound settings maxCalls) (runId : RunId) (key destination : String) :
    (s.arrive settings runId key destination).Sound settings maxCalls := by
  obtain ⟨phase, hunlocked, hphase, heq⟩ := arrive_phase (s := s) runId key destination
  rw [heq]
  let new : CallRequest :=
    ⟨s.requests.length, runId, key, destination, (s.byKey runId key).isSome, phase⟩
  have hfits : s.Fits settings maxCalls new phase := hphase _ _
  have hback : ∀ q ∈ s.requests ++ [new], q ∈ s.requests ∨ q = new := fun q hq =>
    (mem_append.1 hq).imp_right mem_singleton.1
  refine ⟨?_, hs.keys, hs.limit, fun k hk => ?_, fun p hp q hq hplocks hqlocks hrun => ?_,
    fun q hq => ?_, fun q hq hrepeated => ?_, fun d hd => ?_, hs.once⟩
  · change (s.requests ++ [new]).map CallRequest.id = List.range (s.requests ++ [new]).length
    simp [hs.ids, new, range_succ]
  · obtain ⟨q, hq, h⟩ := hs.owners k hk
    exact ⟨q, mem_append_left _ hq, h⟩
  · rcases hback p hp with hp | rfl
    · rcases hback q hq with hq | rfl
      · exact hs.locks p hp q hq hplocks hqlocks hrun
      · rw [hunlocked] at hqlocks
        cases hqlocks
    · rw [hunlocked] at hplocks
      cases hplocks
  · refine Fits.of_cores rfl ?_
    rcases hback q hq with hq | rfl
    · exact hs.fits q hq
    · exact hfits
  · rcases hback q hq with hq | rfl
    · exact hs.repeated q hq hrepeated
    · obtain ⟨c, hc⟩ := isSome_iff_exists.1 hrepeated
      obtain ⟨hmem, hkey⟩ := byKey_mem hc
      exact ⟨c.core, hmem, hkey⟩
  · obtain ⟨hmem, hrequest⟩ := hs.dialed d hd
    refine ⟨hmem, fun q hq hid => ?_⟩
    rcases hback q hq with hq | rfl
    · exact hrequest q hq hid
    · -- a row's id is the number of a request that was there before
      obtain ⟨p, hp, heq, -⟩ := hs.owners _ hmem
      have hlt := hs.lt_length hp
      have hpid : d.request = p.id := congrArg Prod.fst heq
      exact absurd (hid.trans hpid) (Nat.ne_of_gt hlt)

section Insert

variable (hrow : s.byKey r.runId r.key = none)
include hrow

theorem insert_eq : s.insert r = goto r .dialing { s with calls := s.calls
    ++ [⟨r.id, r.runId, r.key, last4 r.destination, none, .creating, none, none, none⟩] } := by
  simp only [Telephony.insert, hrow]

theorem cores_insert : (s.insert r).cores = s.cores ++ [(r.id, r.runId, r.key)] := by
  rw [insert_eq hrow]
  simp [cores, goto, TelephonyCall.core]

theorem mem_insert (hq : q ∈ (s.insert r).requests) :
    q = { r with phase := .dialing } ∨ (q ∈ s.requests ∧ q.id ≠ r.id) := by
  rw [insert_eq hrow] at hq
  exact mem_goto hq

theorem count_insert (runId : RunId) :
    (s.insert r).count runId = s.count runId + if r.runId = runId then 1 else 0 := by
  rw [count_eq, count_eq, cores_insert hrow, filter_append, length_append]
  by_cases hrun : r.runId = runId <;> simp [hrun]

theorem Sound.not_repeated (hs : s.Sound settings maxCalls) (hr : r ∈ s.requests) :
    r.repeated = false := by
  by_contra hrepeated
  obtain ⟨k, hk, hkey⟩ := hs.repeated r hr (Bool.eq_true_of_not_eq_false hrepeated)
  exact byKey_eq_none.1 hrow k hk hkey

variable (hs : s.Sound settings maxCalls) (hr : r ∈ s.requests) (hinserting : r.phase = .inserting)
include hs hr hinserting

/-- The lock keeps the other requests of the run from counting or inserting, and what they have
found stays true. -/
theorem Sound.fits_insert (hq : q ∈ s.requests) (hne : q.id ≠ r.id) :
    (s.insert r).Fits settings maxCalls q q.phase := by
  have hcores := cores_insert hrow
  have hqfits := hs.fits q hq
  have hother : q.phase.locks = true → q.runId ≠ r.runId := fun hlocks hrun =>
    hne (hs.locks q hq r hr hlocks (by rw [hinserting]; rfl) hrun)
  have hfree : q.phase.locks = true → (∀ k ∈ s.cores, k.2 ≠ (q.runId, q.key)) →
      ∀ k ∈ (s.insert r).cores, k.2 ≠ (q.runId, q.key) := by
    intro hlocks hnone k hk
    rw [hcores] at hk
    rcases mem_append.1 hk with hk | hk
    · exact hnone k hk
    · rw [mem_singleton.1 hk]
      exact fun h => hother hlocks (congrArg Prod.fst h).symm
  cases hphase : q.phase with
  | checking | locking | holding | crashed => exact trivial
  | counting =>
    rw [hphase] at hqfits hfree
    exact hfree rfl hqfits
  | inserting =>
    rw [hphase] at hqfits hfree hother
    refine ⟨hfree rfl hqfits.1, ?_⟩
    rw [count_insert hrow, if_neg (hother rfl).symm]
    exact hqfits.2
  | dialing | sent | doubting =>
    rw [hphase] at hqfits
    exact ⟨hcores ▸ mem_append_left _ hqfits.1, hqfits.2⟩
  | ended =>
    rw [hphase] at hqfits
    intro hrepeated
    refine (hqfits hrepeated).imp_left fun ⟨id, hmem, hanswer⟩ => ?_
    exact ⟨id, hcores ▸ mem_append_left _ hmem, hanswer⟩

theorem Sound.owners_insert (k : ℕ × RunId × String) (hk : k ∈ (s.insert r).cores) :
    ∃ q ∈ (s.insert r).requests, k = (q.id, q.runId, q.key) ∧ q.phase.inserted = true := by
  rw [cores_insert hrow] at hk
  rw [insert_eq hrow]
  rcases mem_append.1 hk with hk | hk
  · obtain ⟨q, hq, rfl, hinserted⟩ := hs.owners k hk
    have hne : q.id ≠ r.id := fun hid => by
      obtain rfl := hs.eq_of_id hq hr hid
      rw [hinserting] at hinserted
      cases hinserted
    exact ⟨q, mem_put_of_mem hq hne, rfl, hinserted⟩
  · exact ⟨_, mem_put_self hr rfl, mem_singleton.1 hk, rfl⟩

theorem Sound.insert : (s.insert r).Sound settings maxCalls := by
  have hcores := cores_insert hrow
  have hfresh := hs.not_repeated hrow hr
  have hrfits := hs.fits r hr
  rw [hinserting] at hrfits
  refine ⟨?_, ?_, fun runId => ?_, hs.owners_insert hrow hr hinserting,
    fun p hp q hq hplocks hqlocks hrun => ?_, fun q hq => ?_, fun q hq hrepeated => ?_,
    fun d hd => ?_, ?_⟩
  · rw [insert_eq hrow, goto, map_key_put, hs.ids]
    simp [Table.put]
  · rw [hcores, map_append, nodup_append]
    refine ⟨hs.keys, by simp, fun key hkey key' hkey' => ?_⟩
    obtain ⟨k, hk, rfl⟩ := mem_map.1 hkey
    obtain rfl : key' = (r.runId, r.key) := by simpa using hkey'
    exact byKey_eq_none.1 hrow k hk
  · rw [count_insert hrow]
    split_ifs with hrun
    · rw [← hrun]
      exact hrfits.2
    · exact hs.limit runId
  · rcases mem_insert hrow hp with rfl | ⟨hp, -⟩
    · cases hplocks
    · rcases mem_insert hrow hq with rfl | ⟨hq, -⟩
      · cases hqlocks
      · exact hs.locks p hp q hq hplocks hqlocks hrun
  · rcases mem_insert hrow hq with rfl | ⟨hq, hne⟩
    · exact ⟨hcores ▸ mem_append_right _ (mem_singleton.2 rfl), hfresh⟩
    · exact hs.fits_insert hrow hr hinserting hq hne
  · have hmem : ∃ k ∈ s.cores, k.2 = (q.runId, q.key) := by
      rcases mem_insert hrow hq with rfl | ⟨hq, -⟩
      · exact hs.repeated r hr hrepeated
      · exact hs.repeated q hq hrepeated
    obtain ⟨k, hk, hkey⟩ := hmem
    exact ⟨k, hcores ▸ mem_append_left _ hk, hkey⟩
  · rw [insert_eq hrow] at hd
    obtain ⟨hmem, hrequest⟩ := hs.dialed d hd
    refine ⟨hcores ▸ mem_append_left _ hmem, fun q hq hid => ?_⟩
    rcases mem_insert hrow hq with rfl | ⟨hq, -⟩
    · have hdialed := (hrequest r hr hid).1
      rw [hinserting] at hdialed
      cases hdialed
    · exact hrequest q hq hid
  · rw [insert_eq hrow]
    exact hs.once

end Insert

theorem Sound.did (hs : s.Sound settings maxCalls) (hdid : s.Did settings maxCalls a s') :
    s'.Sound settings maxCalls := by
  cases hdid with
  | arrived => exact hs.arrived _ _ _
  | went request goes requests cores dials =>
    have hr := get_mem request
    exact hs.moved hr (goes.fits hs hr) goes.keeps.1 goes.keeps.2 goes.locks requests cores dials
  | inserted request inserting row => exact hs.insert row (get_mem request) inserting
  | dialed request dialing => exact hs.dial (get_mem request) dialing
  | called requests cores dials =>
    refine ⟨requests ▸ hs.ids, cores ▸ hs.keys, fun runId => ?_, ?_, requests ▸ hs.locks,
      fun r hr => ?_, ?_, ?_, dials ▸ hs.once⟩
    · rw [count_eq, cores, ← count_eq]
      exact hs.limit runId
    · rw [cores, requests]
      exact hs.owners
    · exact Fits.of_cores cores (hs.fits r (requests ▸ hr))
    · rw [cores, requests]
      exact hs.repeated
    · rw [cores, requests, dials]
      exact hs.dialed

theorem Sound.empty : Telephony.empty.Sound settings maxCalls :=
  ⟨rfl, nodup_nil, fun _ => Nat.zero_le _, fun _ hk => absurd hk not_mem_nil,
    fun _ hq => absurd hq not_mem_nil, fun _ hr => absurd hr not_mem_nil,
    fun _ hr => absurd hr not_mem_nil, fun _ hd => absurd hd not_mem_nil,
    nodup_nil⟩

/-- What the broker promises of the dials: one a key, `maxCalls` a run, none for a key that had a
row; and a request whose key has a row is answered from it. -/
structure Dialed (settings : TelephonySettings) (maxCalls : RunId → ℕ) (s : Telephony) : Prop where
  once : ∀ runId key, (s.dials.filter fun d => d.runId = runId && d.key = key).length ≤ 1
  limited : ∀ runId, (s.dials.filter fun d => d.runId = runId).length ≤ maxCalls runId
  fresh : ∀ d ∈ s.dials, ∀ r ∈ s.requests, r.id = d.request → r.repeated = false
  /-- the lookup of a key that has a row ends the request with the row's view, or, if the row is
  in doubt, with `OUTCOME_UNKNOWN` -/
  stored : ∀ r ∈ s.requests, r.phase = .holding → ∀ c ∈ s.calls, c.runId = r.runId →
    c.idempotencyKey = r.key → ∀ s', (telephony settings maxCalls).step (.lookup r.id) s = some s' →
      s'.getRequest r.id = some { r with phase := .ended c.stored }
  answered : ∀ r ∈ s.requests, r.repeated = true → ∀ answer, r.phase = .ended answer →
    Answered s r answer ∨ RefusedBefore settings r answer

theorem Sound.dialed_once (hs : s.Sound settings maxCalls) (runId : RunId) (key : String) :
    (s.dials.filter fun d => d.runId = runId && d.key = key).length ≤ 1 := by
  refine length_le_one_of_nodup_map (hs.once.sublist (filter_sublist.map _))
    fun d hd e he => ?_
  simp only [mem_filter, Bool.and_eq_true, decide_eq_true_eq] at hd he
  have hcores := hs.key_eq (hs.dialed d hd.1).1 (hs.dialed e he.1).1
    (Prod.ext (hd.2.1.trans he.2.1.symm) (hd.2.2.trans he.2.2.symm))
  exact congrArg Prod.fst hcores

theorem Sound.dialed_limited (hs : s.Sound settings maxCalls) (runId : RunId) :
    (s.dials.filter fun d => d.runId = runId).length ≤ maxCalls runId := by
  let rows := (s.dials.filter fun d => d.runId = runId).map fun d => (d.request, d.runId, d.key)
  have hrequests : (rows.map Prod.fst).Nodup := by
    simp only [rows, List.map_map]
    exact hs.once.sublist (filter_sublist.map _)
  have hsubset : rows ⊆ s.cores.filter fun k => k.2.1 = runId := by
    intro k hk
    obtain ⟨d, hd, rfl⟩ := List.mem_map.1 hk
    obtain ⟨hd, hrun⟩ := mem_filter.1 hd
    exact mem_filter.2 ⟨(hs.dialed d hd).1, hrun⟩
  calc (s.dials.filter fun d => d.runId = runId).length
      = rows.length := by rw [length_map]
    _ ≤ (s.cores.filter fun k => k.2.1 = runId).length :=
      (subperm_of_subset hrequests.of_map hsubset).length_le
    _ = s.count runId := (count_eq runId).symm
    _ ≤ maxCalls runId := hs.limit runId

theorem Sound.lookup_stored (hs : s.Sound settings maxCalls) (hr : r ∈ s.requests)
    (hholding : r.phase = .holding) (hc : c ∈ s.calls) (hrun : c.runId = r.runId)
    (hkey : c.idempotencyKey = r.key)
    (hstep : (telephony settings maxCalls).step (.lookup r.id) s = some s') :
    s'.getRequest r.id = some { r with phase := .ended c.stored } := by
  have hget : s.getRequest r.id = some r := get_of_mem hs.nodup hr
  have hrow : s.byKey r.runId r.key = some c := by
    cases hby : s.byKey r.runId r.key with
    | none =>
      have hne := byKey_eq_none.1 hby c.core (mem_map_of_mem hc)
      exact absurd (by simp [TelephonyCall.core, hrun, hkey]) hne
    | some d =>
      have hkeys : (s.calls.map fun c => c.core.2).Nodup := by
        have h := hs.keys
        rwa [cores, List.map_map] at h
      have hsame : d.core.2 = c.core.2 := by
        rw [(byKey_mem hby).2]
        simp [TelephonyCall.core, hrun, hkey]
      rw [inj_on_of_nodup_map hkeys (mem_of_find?_eq_some hby) hc hsame]
  simp only [telephony, step, onRequest, hget, bind_some, hholding, lookup, hrow,
    some.injEq] at hstep
  rw [← hstep]
  let r' : CallRequest := { r with phase := .ended c.stored }
  have hput : Table.get CallRequest.id r'.id (Table.put CallRequest.id r' s.requests) = some r' :=
    get_put_self hget
  exact hput

theorem Sound.promise (hs : s.Sound settings maxCalls) : s.Dialed settings maxCalls where
  once := hs.dialed_once
  limited := hs.dialed_limited
  fresh d hd r hr hid := ((hs.dialed d hd).2 r hr hid).2
  stored r hr hholding c hc hrun hkey s' hstep := hs.lookup_stored hr hholding hc hrun hkey hstep
  answered r hr hrepeated answer hphase := by
    have hfits := hs.fits r hr
    rw [hphase] at hfits
    exact hfits hrepeated

/-- In whatever order requests come, crash and are answered, and whatever Twilio calls back. -/
theorem dials_bounded (settings : TelephonySettings) (maxCalls : RunId → ℕ)
    (actions : List CallAction) :
    (telephony settings maxCalls).Along (Dialed settings maxCalls) actions empty := by
  have hsound : (telephony settings maxCalls).Along (Sound settings maxCalls) actions empty :=
    Machine.along_of_step (fun a s s' hs h => hs.did (did_of_step hs h)) actions .empty
  exact hsound.mono fun _ hs => hs.promise

/-- Every repeat is answered with the stored call. -/
def RepeatsAnswered (s : Telephony) : Prop :=
  ∀ r ∈ s.requests, r.repeated = true → ∀ answer, r.phase = .ended answer → Answered s r answer

theorem RepeatsAnswered.unanswered (h : s.RepeatsAnswered) :
    ∀ r ∈ s.requests, r.repeated = true → r.phase.unanswered = false := by
  intro r hr hrepeated
  unfold CallPhase.unanswered
  split
  · rename_i e hphase
    obtain ⟨id, -, hanswer | ⟨view, hview, -⟩⟩ := h r hr hrepeated _ hphase
    · rw [Except.error.inj hanswer]
      rfl
    · exact absurd hview nofun
  · rfl

def plainTelephony : Machine Telephony CallAction :=
  telephony ⟨false, [], Char.isDigit, fun _ => 0⟩ fun _ => 3

def firstInserted : List CallAction :=
  [.arrive 1 "k" "+15550100123", .credentials 0 none, .lock 0, .lookup 0, .count 0, .insert 0]

/-- A key that has a row is used again with a destination that is no phone number, or while no
credentials are saved. -/
theorem repeat_refused :
    ¬ plainTelephony.Along RepeatsAnswered (firstInserted ++ [.arrive 1 "k" "12"]) empty
    ∧ ¬ plainTelephony.Along RepeatsAnswered (firstInserted ++
      [.arrive 1 "k" "+15550100123", .credentials 1 (some .notConfigured)]) empty :=
  ⟨fun h => absurd (h.mono fun _ => RepeatsAnswered.unanswered) (by decide),
    fun h => absurd (h.mono fun _ => RepeatsAnswered.unanswered) (by decide)⟩

end Telephony

end Crewquarters
