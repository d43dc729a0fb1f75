import Crewquarters.Approvals
import Crewquarters.Proofs.Permissions

/-!
# What an approval allows

A run carries the approval that its creation read (`Copied`), whatever the owner approves later, and
what a call may use is decided by that copy (`allowed_as_created`). So an approval that is narrowed
while a run goes on does not narrow what the run may do (`narrowed_call_allowed`).
-/

namespace Crewquarters

open List Option

namespace Approvals

variable {catalog : ReleaseCatalog}

def CopiedRun (approvals : List Approval) (run : RunView) (seenAt : ℕ) : Prop :=
  approvals[seenAt]? = some ⟨run.permissions, run.modelBindings⟩

/-- What a grant holds is what the token and the run's copy have in common. -/
structure CopiedGrant (approvals : List Approval) (grant : CapabilityGrant) : Prop where
  run : CopiedRun approvals grant.run grant.seenAt
  capabilities : ∀ cap ∈ grant.capabilities, cap ∈ grant.claims.capabilities
    ∧ cap ∈ capabilitiesFromPermissions grant.run.permissions grant.run.modelBindings
  readAt : grant.readAt < approvals.length

/-- Copies are copies of the approval they were made of, from the installation to the calls. -/
structure Copied (s : Approvals) : Prop where
  agent : s.approvals[s.current]? = some s.agent.approval
  creating : ∀ agent seenAt, (agent, seenAt) ∈ s.creating →
    s.approvals[seenAt]? = some agent.approval
  runs : ∀ run ∈ s.runs, CopiedRun s.approvals run.view run.seenAt
  grants : ∀ grant ∈ s.grants, CopiedGrant s.approvals grant
  calls : ∀ call ∈ s.calls, CopiedGrant s.approvals call.grant ∧ call.cap ∈ call.grant.capabilities

theorem copied_start (agent : OwnedAgent) : Copied (start agent) where
  agent := rfl
  creating := by simp [start]
  runs := by simp [start]
  grants := by simp [start]
  calls := by simp [start]

theorem getElem?_append_of_eq_some {α : Type*} {l m : List α} {n : ℕ} {a : α}
    (h : l[n]? = some a) : (l ++ m)[n]? = some a := by
  have hlt : n < l.length := (List.getElem?_eq_some_iff.mp h).1
  rw [getElem?_append_left hlt, h]

theorem CopiedGrant.append {approvals : List Approval} {grant : CapabilityGrant}
    (h : CopiedGrant approvals grant) (approval : Approval) :
    CopiedGrant (approvals ++ [approval]) grant :=
  ⟨getElem?_append_of_eq_some h.run, h.capabilities, by
    rw [length_append]
    exact Nat.lt_add_right _ h.readAt⟩

variable {s t : Approvals}

theorem Copied.update (h : Copied s) (agent : OwnedAgent) :
    Copied { s with agent := agent, approvals := s.approvals ++ [agent.approval] } where
  agent := by simp [current]
  creating other seenAt hmem := getElem?_append_of_eq_some (h.creating other seenAt hmem)
  runs run hmem := getElem?_append_of_eq_some (h.runs run hmem)
  grants grant hmem := (h.grants grant hmem).append _
  calls call hmem := ⟨(h.calls call hmem).1.append _, (h.calls call hmem).2⟩

theorem current_lt (h : Copied s) : s.current < s.approvals.length :=
  (List.getElem?_eq_some_iff.mp h.agent).1

theorem copiedGrant_of_authorize (h : Copied s) {claims : TokenClaims} {allowFinished : Bool}
    {grant : CapabilityGrant}
    (hok : authorizeView claims allowFinished s.runs s.current = .ok grant) :
    CopiedGrant s.approvals grant := by
  unfold authorizeView at hok
  split at hok
  · cases hok
  · rename_i id run seenAt hfind
    dsimp only at hok
    split_ifs at hok
    obtain rfl := Except.ok.inj hok
    have hrun := h.runs _ (mem_of_find?_eq_some hfind)
    refine ⟨hrun, fun cap hcap => ?_, current_lt h⟩
    simpa using hcap

theorem mem_of_require {grant : CapabilityGrant} {cap : String} {baseline : Bool}
    (h : grant.require cap baseline = .ok ()) : cap ∈ grant.capabilities := by
  unfold CapabilityGrant.require at h
  split_ifs at h with hmem
  exact hmem

theorem Copied.step (h : Copied s) {action : ApprovalAction}
    (hstep : approvalStep catalog s action = some t) : Copied t := by
  cases action with
  | update =>
    simp only [approvalStep] at hstep
    split at hstep <;> obtain rfl := some.inj hstep
    · exact h
    · exact h.update _
  | read =>
    obtain rfl := some.inj hstep
    refine { h with creating := fun agent seenAt hmem => ?_ }
    rcases mem_append.mp hmem with hold | hnew
    · exact h.creating agent seenAt hold
    · obtain ⟨rfl, rfl⟩ := Prod.mk.inj (mem_singleton.mp hnew)
      exact h.agent
  | insert n id =>
    simp only [approvalStep] at hstep
    split at hstep
    · cases hstep
    · rename_i agent seenAt hget
      split_ifs at hstep
      obtain rfl := some.inj hstep
      refine { h with
        creating := fun other seen hmem => h.creating other seen (mem_of_mem_eraseIdx hmem)
        runs := fun run hmem => ?_ }
      rcases mem_append.mp hmem with hold | hnew
      · exact h.runs run hold
      · obtain rfl := mem_singleton.mp hnew
        exact h.creating agent seenAt (mem_of_getElem? hget)
  | change =>
    obtain rfl := some.inj hstep
    refine { h with runs := fun run hmem => ?_ }
    obtain ⟨old, hold, rfl⟩ := mem_map.mp hmem
    unfold ApprovedRun.change
    split_ifs <;> exact h.runs old hold
  | authorize claims allowFinished =>
    simp only [approvalStep] at hstep
    split at hstep <;> obtain rfl := some.inj hstep
    · exact h
    · rename_i grant hok
      refine { h with grants := fun other hmem => ?_ }
      rcases mem_append.mp hmem with hold | hnew
      · exact h.grants other hold
      · obtain rfl := mem_singleton.mp hnew
        exact copiedGrant_of_authorize h hok
  | require n cap baseline =>
    simp only [approvalStep] at hstep
    split at hstep
    · cases hstep
    · rename_i grant hget
      split at hstep <;> obtain rfl := some.inj hstep
      · exact h
      · rename_i hok
        refine { h with calls := fun call hmem => ?_ }
        rcases mem_append.mp hmem with hold | hnew
        · exact h.calls call hold
        · obtain rfl := mem_singleton.mp hnew
          exact ⟨h.grants grant (mem_of_getElem? hget), mem_of_require hok⟩

theorem copied_of_run {agent : OwnedAgent} {actions : List ApprovalAction}
    (hrun : (approvalMachine catalog).run actions (start agent) = some s) : Copied s := by
  have hstep : ∀ action u v, Copied u → (approvalMachine catalog).step action u = some v →
      Copied v := fun _ _ _ hu hv => hu.step hv
  exact Machine.run_keeps hstep actions (copied_start agent) hrun

end Approvals

def Approval.capabilities (approval : Approval) : List String :=
  capabilitiesFromPermissions approval.permissions approval.modelBindings

namespace Approvals

/-- A call that is let through uses what is in the token and in the approval its run was created
under, and so in the approval that was current when the run view was read, unless that is a
narrower one. -/
theorem allowed_as_created (catalog : ReleaseCatalog) (agent : OwnedAgent)
    (actions : List ApprovalAction) (s : Approvals)
    (hrun : (approvalMachine catalog).run actions (start agent) = some s) (call : AllowedCall)
    (hcall : call ∈ s.calls) :
    call.cap ∈ call.grant.claims.capabilities ∧
      ∃ created current, s.approvals[call.grant.seenAt]? = some created
        ∧ s.approvals[call.grant.readAt]? = some current
        ∧ call.cap ∈ created.capabilities
        ∧ (created.capabilities ⊆ current.capabilities → call.cap ∈ current.capabilities) := by
  have hcopied := copied_of_run hrun
  obtain ⟨hgrant, hmem⟩ := hcopied.calls call hcall
  obtain ⟨htoken, hcreated⟩ := hgrant.capabilities call.cap hmem
  obtain ⟨current, hcurrent⟩ : ∃ current, s.approvals[call.grant.readAt]? = some current :=
    ⟨_, getElem?_eq_getElem hgrant.readAt⟩
  exact ⟨htoken, _, current, hgrant.run, hcurrent, hcreated, fun hnarrow => hnarrow hcreated⟩

def callingRelease : AgentRelease :=
  ⟨1, "1.0.0", ⟨blockWith [("twilio", .arr [.str "call.fixed_script"])], by decide⟩⟩

def quietRelease : AgentRelease := ⟨2, "2.0.0", withoutSip⟩

def widerRelease : AgentRelease :=
  ⟨3, "1.1.0", ⟨blockWith [("twilio", .arr [.str "call.fixed_script"]),
    ("google", .arr [.str "spreadsheets"])], by decide⟩⟩

def callerCatalog : ReleaseCatalog :=
  ⟨[callingRelease, quietRelease, widerRelease], fun _ => [], fun _ config => config, fun _ _ => []⟩

def callerAgent : OwnedAgent :=
  ⟨3, "caller", 1, callingRelease.permissions, 1, false,
    [("local.general", "local.general.small")], .obj [], true, 1⟩

def callerClaims : TokenClaims where
  tokenId := 5
  runId := 7
  attempt := 1
  installationId := 3
  agentVersionId := 1
  issuedAt := 0
  expiresAt := 600
  capabilities := ["events.write", "idempotency", "twilio.call.fixed_script"]

def startsCaller : List ApprovalAction :=
  [.read, .insert 0 7, .change 7 .running 1 (some 5) false]

def callerCalls : List ApprovalAction :=
  [.authorize callerClaims false, .require 0 "twilio.call.fixed_script" false]

/-- The owner goes on to the version that does not place calls and approves what it asks for. -/
def narrows : ApprovalAction :=
  .update ⟨1, some "2.0.0", none, some withoutSip, none, none⟩

/-- The run keeps the approval it was created with. -/
theorem narrowed_call_allowed :
    ∃ s, (approvalMachine callerCatalog).run (startsCaller ++ narrows :: callerCalls)
        (start callerAgent) = some s
      ∧ ∃ call ∈ s.calls, call.cap = "twilio.call.fixed_script"
        ∧ call.grant.readAt = s.current
        ∧ call.cap ∉ s.agent.approval.capabilities := by
  have hany : ((approvalMachine callerCatalog).run (startsCaller ++ narrows :: callerCalls)
      (start callerAgent)).any (fun s => s.calls.any fun call =>
        call.cap = "twilio.call.fixed_script" ∧ call.grant.readAt = s.current
          ∧ call.cap ∉ s.agent.approval.capabilities) = true := by
    decide
  obtain ⟨s, hs, hcalls⟩ := (any_eq_true _ _).mp hany
  obtain ⟨call, hcall, hholds⟩ := any_eq_true.mp hcalls
  exact ⟨s, hs, call, hcall, of_decide_eq_true hholds⟩

/-- The owner goes on to a version that asks for more and approves it. -/
def widens : ApprovalAction :=
  .update ⟨1, some "1.1.0", none, some widerRelease.permissions, none, none⟩

/-- The run was created under the first approval and calls under the second, which has it too. -/
theorem allowed_as_created_caller :
    ∃ s, (approvalMachine callerCatalog).run (startsCaller ++ widens :: callerCalls)
        (start callerAgent) = some s
      ∧ ∃ call ∈ s.calls, call.grant.seenAt < call.grant.readAt
        ∧ ∃ current, s.approvals[call.grant.readAt]? = some current
          ∧ call.cap ∈ current.capabilities := by
  have hany : ((approvalMachine callerCatalog).run (startsCaller ++ widens :: callerCalls)
      (start callerAgent)).any (fun s => s.calls.any fun call =>
        call.grant.seenAt < call.grant.readAt ∧ s.approvals[call.grant.seenAt]?.all fun created =>
          s.approvals[call.grant.readAt]?.all fun current =>
            created.capabilities.all (· ∈ current.capabilities)) = true := by
    decide
  obtain ⟨s, hs, hcalls⟩ := (any_eq_true _ _).mp hany
  obtain ⟨call, hcall, hholds⟩ := any_eq_true.mp hcalls
  obtain ⟨hlater, hsubset⟩ := of_decide_eq_true hholds
  obtain ⟨-, created, current, hcreated, hcurrent, -, hallowed⟩ :=
    allowed_as_created callerCatalog callerAgent _ s hs call hcall
  rw [hcreated, hcurrent] at hsubset
  refine ⟨s, hs, call, hcall, hlater, current, hcurrent, hallowed fun cap hcap => ?_⟩
  exact of_decide_eq_true (all_eq_true.1 hsubset cap hcap)

end Approvals

end Crewquarters
