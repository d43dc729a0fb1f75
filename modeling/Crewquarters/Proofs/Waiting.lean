import Crewquarters.Proofs.Database

/-!
# Waiting means a question is open

A run is in `WAITING_INPUT` exactly while one of its input requests is pending
(`WaitsForOpen`). Inside an operation the two part for a moment, so the operation as a whole is
what keeps them together: one that leaves `WAITING_INPUT` closes every request
(`not_hasPending_closePendingInputs`), one that closes a request moves the run on if it was the
last (`waitsForOpen_resumed`).
-/

namespace Crewquarters

open RunState (canTransition)

variable {s t : Session} {clk : Clock}

def HasPending (requests : List InputRequest) : Prop := ∃ r ∈ requests, r.state = .pending

def WaitsForOpen (d : RunData) : Prop := d.run.state = .waitingInput ↔ HasPending d.requests

theorem pendingRequests_eq_nil : pendingRequests s = [] ↔ ¬ HasPending s.requests := by
  simp [pendingRequests, HasPending, List.filter_eq_nil_iff]

theorem pending_of_closed {state : RequestState} (hs : state ≠ .pending) :
    ∀ {l : List InputRequest} {s : Session} {r : InputRequest},
      r ∈ (l.foldl (closeRequest state) s).requests → r.state = .pending →
      r ∈ s.requests ∧ ∀ x ∈ l, x.id ≠ r.id
  | [], _, _, hr, _ => ⟨hr, by simp⟩
  | x :: l, s, r, hr, hp => by
    obtain ⟨hr, hl⟩ := pending_of_closed hs (s := closeRequest state s x) hr hp
    rcases Table.mem_put hr with rfl | ⟨hr, hx⟩
    · exact absurd hp hs
    · refine ⟨hr, fun y hy => ?_⟩
      rcases List.mem_cons.1 hy with rfl | hy
      · exact fun h => hx h.symm
      · exact hl y hy

theorem not_hasPending_closePendingInputs {state : RequestState} (hs : state ≠ .pending) :
    ¬ HasPending (closePendingInputs state s).requests := by
  rintro ⟨r, hr, hp⟩
  obtain ⟨hmem, hne⟩ := pending_of_closed hs hr hp
  exact hne r (by simp [pendingRequests, hmem, hp]) rfl

namespace WaitsForOpen

theorem of_not {d : RunData} (hstate : d.run.state ≠ .waitingInput)
    (hnone : ¬ HasPending d.requests) : WaitsForOpen d :=
  iff_of_false hstate hnone

theorem not_hasPending {d : RunData} (h : WaitsForOpen d) (hstate : d.run.state ≠ .waitingInput) :
    ¬ HasPending d.requests :=
  fun hp => hstate (h.2 hp)

theorem congr {d d' : RunData} (h : WaitsForOpen d) (hstate : d'.run.state = d.run.state)
    (hrequests : d'.requests = d.requests) : WaitsForOpen d' := by
  unfold WaitsForOpen
  rw [hstate, hrequests]
  exact h

theorem move {d d' : RunData} (h : WaitsForOpen d) (hstate : d.run.state ≠ .waitingInput)
    (hstate' : d'.run.state ≠ .waitingInput) (hrequests : d'.requests = d.requests) :
    WaitsForOpen d' :=
  of_not hstate' (by rw [hrequests]; exact h.not_hasPending hstate)

theorem close (hstate : s.run.state ≠ .waitingInput) :
    WaitsForOpen (closePendingInputs .cancelled s).toRunData :=
  of_not (by rw [closePendingInputs_run]; exact hstate)
    (not_hasPending_closePendingInputs (by decide))

end WaitsForOpen

theorem waitsForOpen_resumed {now : Time} (h : s.run.state = .waitingInput) :
    WaitsForOpen (resumed now s).toRunData := by
  unfold resumed
  split_ifs with hp
  · exact .of_not (by simp) (pendingRequests_eq_nil.1 hp.2)
  · have hp' : pendingRequests s ≠ [] := fun he => hp ⟨h, he⟩
    exact iff_of_true h (not_not.1 fun hn => hp' (pendingRequests_eq_nil.2 hn))

theorem waitsForOpen_waited {now : Time} {key : String} (hp : HasPending s.requests)
    (h : s.run.state = .running ∨ s.run.state = .waitingInput) :
    WaitsForOpen (waited now key s).toRunData := by
  unfold waited
  split_ifs with hr
  · exact iff_of_true rfl hp
  · exact iff_of_true (h.resolve_left hr) hp

theorem waitsForOpen_fail {code message : String} {retryable interrupted : Bool}
    {details : List (String × Json)} (h : WaitsForOpen s.toRunData)
    (hs : failRun clk code message retryable interrupted details s = .ok t) :
    WaitsForOpen t.toRunData := by
  rcases failRun_cases hs with rfl | ⟨hw, rfl⟩
  · exact h
  · refine .close ?_
    rw [stopAttempt_run]
    cases interrupted <;> simp

theorem waitsForOpen_expire {now : Time} {k : ℕ} (h : WaitsForOpen s.toRunData)
    (hs : expireInputs clk now s = .ok (k, t)) : WaitsForOpen t.toRunData := by
  obtain ⟨rfl, -⟩ | ⟨-, hp, rfl⟩ := expireInputs_cases hs
  · exact h
  · refine waitsForOpen_resumed ?_
    rw [(foldl_closeRequest_frame .expired _ s).1]
    exact h.2 hp

namespace WaitsForOpen

theorem call {G : Guards} {c : RunCall} (hc : c.exec G clk s = .ok t)
    (h : WaitsForOpen s.toRunData) : WaitsForOpen t.toRunData := by
  cases c with
  | requestCancel =>
    rcases requestCancel_cases hc with rfl | ⟨-, rfl⟩ | ⟨-, rfl⟩
    · exact h
    · exact .close (by simp)
    · exact .close (by simp)
  | retry =>
    obtain ⟨hf, rfl⟩ := retry_cases hc
    exact h.move (by rcases hf with hf | hf <;> simp [hf]) (by simp) rfl
  | handshake =>
    obtain ⟨-, a, -, ⟨hp, rfl⟩ | ⟨-, rfl⟩⟩ := handshake_cases hc
    · exact h.move (by simp [hp]) (by simp) rfl
    · exact h.congr rfl rfl
  | heartbeat =>
    obtain ⟨r, hc⟩ := dropResult_eq_ok.1 hc
    obtain ⟨-, rfl | ⟨a, -, rfl⟩⟩ := heartbeat_cases hc
    · exact h
    · exact h.congr rfl rfl
  | setModelLoading =>
    obtain ⟨-, rfl | ⟨reason, ⟨hs, rfl⟩ | ⟨hs, rfl⟩⟩⟩ := setModelLoading_cases hc
    · exact h
    · exact h.move (by simp [hs]) (by simp) rfl
    · exact h.move (by simp [hs]) (by simp) rfl
  | recordAgentEvent =>
    obtain ⟨-, -, -, rfl⟩ := recordAgentEvent_cases hc
    exact h.congr rfl rfl
  | recordAgentEventBatch =>
    obtain ⟨r, hc⟩ := dropResult_eq_ok.1 hc
    obtain ⟨-, -, -, rfl⟩ := recordAgentEventBatch_cases hc
    exact h.congr rfl rfl
  | finish =>
    obtain ⟨-, ⟨-, rfl⟩ | ⟨hs, rfl⟩ | ⟨-, target, payload, err, r, htarget, -, rfl⟩⟩ :=
      finish_cases hc
    · exact h.congr (by rw [exitAttempt_run]) (exitAttempt_requests ..)
    · exact h.move (by simp [hs]) (by simp) (exitAttempt_requests ..)
    · exact .close (by rcases htarget.target with rfl | rfl <;> simp)
  | failRun => exact waitsForOpen_fail h hc
  | recordContainerExit version n ref exitCode =>
    obtain ⟨r, hc⟩ := dropResult_eq_ok.1 hc
    obtain rfl | ⟨a, -, -, hc⟩ := recordContainerExit_cases hc
    · exact h
    · have hn : WaitsForOpen (noteExit exitCode a s).toRunData :=
        h.congr (by rw [noteExit_run]) (noteExit_requests ..)
      obtain rfl | ⟨-, code, message, details, hf⟩ := hc
      · exact hn
      · exact waitsForOpen_fail hn hf
  | ask =>
    obtain ⟨r, hc⟩ := dropResult_eq_ok.1 hc
    obtain ⟨-, hs, hc⟩ := ask_cases hc
    obtain ⟨rfl, -⟩ | ⟨hr, hp, rfl⟩ | ⟨hp, ⟨old, hold, hid⟩, rfl⟩ | ⟨hp, rfl⟩ := hc
    · exact h
    · exact waitsForOpen_waited ⟨r, hr, hp⟩ hs
    · exact waitsForOpen_waited ⟨r, Table.mem_put_self hold hid, hp⟩ hs
    · exact waitsForOpen_waited ⟨r, by simp [Session.addRequest], hp⟩ hs
  | answer =>
    obtain ⟨r, hc⟩ := dropResult_eq_ok.1 hc
    obtain ⟨old, hold, hp, -, -, rfl⟩ := answer_cases hc
    exact waitsForOpen_resumed (h.2 ⟨old, Table.get_mem hold, hp⟩)
  | expireInputs =>
    obtain ⟨k, hc⟩ := dropResult_eq_ok.1 hc
    exact waitsForOpen_expire h hc
  | claimAction =>
    obtain ⟨r, hc⟩ := dropResult_eq_ok.1 hc
    obtain ⟨actions, rfl⟩ := claimAction_frame hc
    exact h.congr rfl rfl
  | completeAction =>
    obtain ⟨r, hc⟩ := dropResult_eq_ok.1 hc
    obtain ⟨actions, rfl⟩ := completeAction_frame hc
    exact h.congr rfl rfl

theorem prepare (h : WaitsForOpen s.toRunData) (now : Time) :
    WaitsForOpen (prepared now s).toRunData := by
  unfold prepared
  split_ifs with hq
  · exact h.move (by simp [hq]) (by simp) rfl
  · exact h

theorem start {hb : ℕ} {a : RunAttempt} (h : WaitsForOpen s.toRunData)
    (hs : beginAttempt clk hb s = .ok (a, t)) : WaitsForOpen t.toRunData := by
  obtain ⟨-, rfl⟩ | ⟨-, -, rfl⟩ := beginAttempt_cases hs
  · exact h.prepare _
  · exact (h.prepare (clk 0)).congr rfl rfl

theorem worker {c : WorkerCall} (hc : c.exec clk s = .ok t) (h : WaitsForOpen s.toRunData) :
    WaitsForOpen t.toRunData := by
  cases c with
  | beginAttempt =>
    obtain ⟨a, hc⟩ := dropResult_eq_ok.1 (raising_eq_ok.1 hc)
    exact h.start hc
  | dispatchPrepare =>
    obtain ⟨spec, hc⟩ := dropResult_eq_ok.1 hc
    obtain ⟨-, rfl, -⟩ | ⟨a, u, -, -, hu, ⟨-, hf⟩ | ⟨-, -, rfl⟩ | ⟨-, sp, -, -, rfl⟩⟩ :=
      dispatchPrepare_cases hc
    · exact h
    · exact waitsForOpen_fail (h.start hu) hf
    · exact h.start hu
    · exact (h.start hu).congr rfl rfl
  | dispatchRecord =>
    obtain ⟨stop, hc⟩ := dropResult_eq_ok.1 hc
    obtain ⟨a, -, -, ⟨-, hb, rfl⟩ | ⟨-, rfl⟩⟩ := dispatchRecord_cases hc
    · exact h.congr rfl rfl
    · exact h
  | cancelFinish =>
    obtain ⟨late, hc⟩ := dropResult_eq_ok.1 hc
    obtain ⟨-, -, rfl⟩ | ⟨hs, -, -, rfl⟩ | ⟨hs, a, -, -, rfl⟩ := cancelFinish_cases hc
    · exact h
    · exact h.move (by simp [hs]) (by simp) rfl
    · exact h.move (by simp [hs]) (by simp) rfl
  | onDeadJob =>
    obtain ⟨rfl, -⟩ | ⟨-, hs, rfl⟩ | ⟨-, hs, rfl⟩ := onDeadJob_cases (raising_eq_ok.1 hc)
    · exact h
    · exact waitsForOpen_fail (h.prepare (clk 0)) (failRun_of_watched (prepared_watched hs))
    · exact h.move (by simp [hs]) (by simp) rfl

end WaitsForOpen

theorem waitsForOpen_invariant (G : Guards) : RunInvariant G WaitsForOpen :=
  ⟨fun _ _ _ _ _ _ _ _ _ _ _ _ _ => .of_not (by simp [startRun, newRunData, Session.enqueue])
    (by simp [startRun, newRunData, Session.enqueue, HasPending]),
    WaitsForOpen.call, WaitsForOpen.worker⟩

/-- After any sequence of transactions, a run waits for input if and only if one of its requests
is pending. -/
theorem waiting_iff_pending {G : Guards} {ops : List (Clock × DbOp)} {db : Db}
    (h : (dbMachine G).run ops Db.empty = some db) :
    ∀ d ∈ db.runs, d.run.state = .waitingInput ↔ ∃ r ∈ d.requests, r.state = .pending :=
  (waitsForOpen_invariant G).holds h

def askedOps : List (Clock × DbOp) :=
  atZero (startPlain ++ [.client (.call 0 (.ask 1 "go" "Go?" "" (.obj []) 60 none))])

theorem waiting_iff_pending_asked : ∃ db,
    (dbMachine plainGuards).run askedOps Db.empty = some db
    ∧ db.runs.map (fun d => (d.run.state, d.requests.map (·.state)))
      = [(.waitingInput, [.pending])]
    ∧ ∀ d ∈ db.runs, d.run.state = .waitingInput ↔ ∃ r ∈ d.requests, r.state = .pending := by
  have h : (dbMachine plainGuards).run askedOps Db.empty = some _ := rfl
  exact ⟨_, h, by decide +kernel, waiting_iff_pending h⟩

end Crewquarters
