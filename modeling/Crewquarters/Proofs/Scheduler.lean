import Crewquarters.Proofs.Cron
import Crewquarters.Proofs.Ledger
import Crewquarters.Proofs.Origins

/-!
# Schedules that fire

A firing does to the ledger of its schedule what `Ledger` allows (`Tracks.fired_self`); a run there
was before is not created again. Firing another schedule changes nothing for this one, so the
ledger is kept through whole ticks and whatever goes on between them.
-/

namespace Crewquarters

open List Option Table Except

variable {records : List ScheduleRecord} {runs : List RunOrigin}

def Schedule.advanced (r : Schedule) (next : Time) (firedAt : Option Time) (runId : Option RunId) :
    Schedule :=
  { r with nextRunAt := some next, lastFiredAt := firedAt, lastRunId := runId }

namespace Scheduling

variable {zones : String → Option Zone} {grace : ℕ} {G : Guards} {s s' t : Scheduling}
  {clk : Clock} {now dueAt scheduledFor next : Time} {late : Bool} {r : Schedule}
  {result : FireResult} {id : ScheduleId}

/-- The times that the runs of a schedule are for, oldest run first. -/
def scheduledFors (id : ScheduleId) (s : Scheduling) : List Time :=
  s.db.runs.filterMap fun d => if d.run.scheduleId = some id then d.run.scheduledFor else none

def forOrigin (id : ScheduleId) (o : RunOrigin) : Option Time :=
  if o.scheduleId = some id then o.scheduledFor else none

theorem scheduledFors_eq (id : ScheduleId) (s : Scheduling) :
    s.scheduledFors id = s.db.origins.filterMap (forOrigin id) := by
  rw [Db.origins, filterMap_map]
  rfl

theorem mem_scheduledFors {id : ScheduleId} {t : Time} : t ∈ s.scheduledFors id
    ↔ ∃ d ∈ s.db.runs, d.run.scheduleId = some id ∧ d.run.scheduledFor = some t := by
  rw [scheduledFors, mem_filterMap]
  refine exists_congr fun d => and_congr_right fun _ => ?_
  by_cases hid : d.run.scheduleId = some id <;> simp [hid]

theorem duplicate_eq_none {id : ScheduleId} {t : Time} :
    s.db.duplicate (some id) (some t) none none = none ↔ t ∉ s.scheduledFors id := by
  rw [mem_scheduledFors]
  simp [Db.duplicate]

/-- Schedules are numbered, and so are runs. -/
structure Keyed (s : Scheduling) : Prop where
  ids : s.schedules.map Schedule.id = List.range s.schedules.length
  runs : s.db.Numbered

theorem Keyed.nodup (h : s.Keyed) : (s.schedules.map Schedule.id).Nodup := by
  rw [h.ids]
  exact nodup_range

theorem Keyed.put (h : s.Keyed) (hrows : s'.schedules = Table.put Schedule.id r s.schedules)
    (hruns : s'.db.Numbered) : s'.Keyed := by
  refine ⟨?_, hruns⟩
  rw [hrows, map_key_put, h.ids, Table.put, length_map]

def Available (id : InstallationId) (s : Scheduling) : Prop :=
  ∃ i, s.getInstallation id = some i ∧ i.unready = false
    ∧ ∃ v, s.getVersion i.agentVersionId = some v

/-- What a firing of `r` writes. -/
structure Fired (r : Schedule) (scheduledFor next : Time) (runs : List RunOrigin)
    (records : List ScheduleRecord) (s s' : Scheduling) : Prop where
  schedules : ∃ firedAt runId,
    s'.schedules = Table.put Schedule.id (r.advanced next firedAt runId) s.schedules
  installations : s'.installations = s.installations
  versions : s'.versions = s.versions
  origins : s'.db.origins = s.db.origins ++ runs
  numbered : s.db.Numbered → s'.db.Numbered
  audit : s'.audit = s.audit ++ records
  ofRuns : ∀ o ∈ runs, o.scheduleId = some r.id ∧ o.scheduledFor = some scheduledFor
  ofRecords : ∀ x ∈ records, x.scheduleId = r.id

theorem Fired.getSchedule_of_ne (h : Fired r scheduledFor next runs records s s')
    (hne : r.id ≠ id) : s'.getSchedule id = s.getSchedule id := by
  obtain ⟨firedAt, runId, hschedules⟩ := h.schedules
  have hkey : Schedule.id (r.advanced next firedAt runId) ≠ id := hne
  rw [getSchedule, hschedules]
  exact get_put_of_ne hkey

theorem Fired.record (h : Fired r scheduledFor next runs records s s') (x : ScheduleRecord)
    (hx : x.scheduleId = r.id) :
    Fired r scheduledFor next runs (records ++ [x]) s (s'.record x) where
  schedules := h.schedules
  installations := h.installations
  versions := h.versions
  origins := h.origins
  numbered := h.numbered
  audit := by
    rw [Scheduling.record, h.audit, append_assoc]
  ofRuns := h.ofRuns
  ofRecords y hy := by
    rcases mem_append.1 hy with hy | hy
    · exact h.ofRecords y hy
    · rw [mem_singleton.1 hy, hx]

theorem fired_insertRun (s : Scheduling) (r : Schedule) (next scheduledFor : Time) (clk : Clock)
    (installation : AgentInstallation) (version : AgentVersion) (firedAt : Option Time)
    (runId : Option RunId) :
    let created := s.db.insertRun clk installation version .schedule none (some r.id)
      (some scheduledFor) none none none
    ∃ runs, Fired r scheduledFor next runs [] s
        { s with db := created.2,
                 schedules := Table.put Schedule.id (r.advanced next firedAt runId) s.schedules }
      ∧ runs.filterMap (forOrigin r.id) = Ledger.made (s.scheduledFors r.id) scheduledFor := by
  intro created
  rcases Db.insertRun_cases clk installation version .schedule none (some r.id) (some scheduledFor)
    none none none s.db with ⟨d, hd, heq⟩ | ⟨hnone, -, horigins, hnext⟩
  · have hdb : created.2 = s.db := congrArg Prod.snd heq
    refine ⟨[], ⟨⟨firedAt, runId, rfl⟩, rfl, rfl, ?_, fun hn => ?_, (append_nil _).symm, nofun,
      nofun⟩, ?_⟩
    · rw [append_nil, hdb]
    · rw [hdb]
      exact hn
    · have hmem : scheduledFor ∈ s.scheduledFors r.id := by
        by_contra hnot
        exact absurd (hd.symm.trans (duplicate_eq_none.2 hnot)) nofun
      rw [Ledger.made, if_pos hmem]
      rfl
  · refine ⟨[⟨s.db.nextUuid, installation.id, version.id, some r.id, some scheduledFor, none,
      none⟩], ⟨⟨firedAt, runId, rfl⟩, rfl, rfl, horigins, fun hn => hn.add horigins rfl hnext,
        (append_nil _).symm, fun o ho => by rw [mem_singleton.1 ho]; exact ⟨rfl, rfl⟩,
        nofun⟩, ?_⟩
    rw [Ledger.made, if_neg (duplicate_eq_none.1 hnone)]
    simp [forOrigin]

theorem fireRun_cases {r₀ : Schedule} (hr : r = { r₀ with nextRunAt := some next })
    (h : (s.setSchedule r).fireRun clk now late dueAt scheduledFor r = .ok (result, s')) :
    (∃ records, Fired r₀ scheduledFor next [] records s s' ∧ ¬ s.Available r₀.installationId)
    ∨ ∃ runs, Fired r₀ scheduledFor next runs
        (if late then [.misfireFiredOnce r₀.id dueAt scheduledFor] else []) s s'
      ∧ runs.filterMap (forOrigin r₀.id) = Ledger.made (s.scheduledFors r₀.id) scheduledFor := by
  subst hr
  have hskipped : Fired r₀ scheduledFor next [] [.skipped r₀.id scheduledFor] s
      ((s.setSchedule { r₀ with nextRunAt := some next }).record (.skipped r₀.id scheduledFor)) :=
    ⟨⟨r₀.lastFiredAt, r₀.lastRunId, rfl⟩, rfl, rfl, (append_nil _).symm, fun hn => hn, rfl, nofun,
      fun x hx => by rw [mem_singleton.1 hx]; rfl⟩
  unfold fireRun at h
  split at h
  · rename_i hnone
    obtain ⟨-, rfl⟩ := Prod.mk.inj (ok.inj h)
    refine .inl ⟨_, hskipped, fun ⟨i, hi, _⟩ => ?_⟩
    exact absurd (hi.symm.trans hnone) nofun
  · rename_i installation hi
    split at h
    · rename_i hunready
      obtain ⟨-, rfl⟩ := Prod.mk.inj (ok.inj h)
      refine .inl ⟨_, hskipped, fun ⟨i, hi', hready, _⟩ => ?_⟩
      obtain rfl := some.inj (hi.symm.trans hi')
      exact absurd hunready (hready ▸ Bool.false_ne_true)
    · split at h
      · exact absurd h nofun
      · rename_i version hversion
        obtain ⟨created, hcreated, h⟩ := bind_eq_ok.1 h
        obtain rfl := Db.createRun_eq_ok hcreated
        obtain ⟨-, rfl⟩ := Prod.mk.inj (ok.inj h)
        obtain ⟨runs, hfired, hmade⟩ := fired_insertRun s r₀ next scheduledFor clk
          installation.toAgentInstallation version.toAgentVersion (some now)
          (some (s.db.insertRun clk installation.toAgentInstallation version.toAgentVersion
            .schedule none (some r₀.id) (some scheduledFor) none none none).1.1)
        refine .inr ⟨runs, ?_, hmade⟩
        simp only [setSchedule, put_put]
        cases late with
        | false => exact hfired
        | true => exact hfired.record _ rfl

/-- What a firing adds, if the installation can run: nothing but the range it skips, or the run,
after the range if it is late. -/
def Adds (s : Scheduling) (r : Schedule) (late : Bool) (dueAt scheduledFor : Time)
    (runs : List RunOrigin) (records : List ScheduleRecord) : Prop :=
  (late = true ∧ runs = [] ∧ records = [.misfireSkipped r.id dueAt scheduledFor])
  ∨ (runs.filterMap (forOrigin r.id) = Ledger.made (s.scheduledFors r.id) scheduledFor
    ∧ records = if late then [.misfireFiredOnce r.id dueAt scheduledFor] else [])

theorem fire_cases (h : s.fire zones grace clk now r = .ok (result, s')) :
    ∃ dueAt scheduledFor next late runs records, r.nextRunAt = some dueAt
      ∧ firedFor zones now dueAt late r = .ok scheduledFor
      ∧ nextOccurrence zones r.cron r.timezone (if late then now else scheduledFor) = .ok next
      ∧ Fired r scheduledFor next runs records s s'
      ∧ (s.Available r.installationId → s.Adds r late dueAt scheduledFor runs records) := by
  unfold fire at h
  split at h
  · exact absurd h nofun
  · rename_i dueAt hdue
    obtain ⟨scheduledFor, hfor, h⟩ := bind_eq_ok.1 h
    obtain ⟨next, hnext, h⟩ := bind_eq_ok.1 h
    have hfor := raising_eq_ok.1 hfor
    have hnext := raising_eq_ok.1 hnext
    generalize hlate : decide ((grace : Time) < now - dueAt) = late at hfor hnext h
    dsimp only at h
    split_ifs at h with hskip
    · obtain ⟨-, rfl⟩ := Prod.mk.inj (ok.inj h)
      have hskip := (Bool.and_eq_true_iff.1 hskip).1
      have hfired : Fired r scheduledFor next [] [] s
          (s.setSchedule { r with nextRunAt := some next }) :=
        ⟨⟨r.lastFiredAt, r.lastRunId, rfl⟩, rfl, rfl, (append_nil _).symm, fun hn => hn,
          (append_nil _).symm, nofun, nofun⟩
      exact ⟨dueAt, scheduledFor, next, late, [], _, hdue, hfor, hnext, hfired.record _ rfl,
        fun _ => .inl ⟨hskip, rfl, rfl⟩⟩
    · rcases fireRun_cases rfl h with ⟨records, hfired, hnot⟩ | ⟨runs, hfired, hmade⟩
      · exact ⟨dueAt, scheduledFor, next, late, [], records, hdue, hfor, hnext, hfired,
          fun ha => absurd ha hnot⟩
      · exact ⟨dueAt, scheduledFor, next, late, runs, _, hdue, hfor, hnext, hfired,
          fun _ => .inr ⟨hmade, rfl⟩⟩

section

variable {start : Scheduling} {r₀ : Schedule} {occ : Set Time} {first : Time}
variable {zone : Zone} {locked : List ScheduleId} {user : UserId}

/-- The row of the schedule, its runs and its records since `start`. -/
structure Tracks (start : Scheduling) (r₀ : Schedule) (occ : Set Time) (first : Time)
    (s : Scheduling) : Prop where
  keyed : s.Keyed
  ledger : ∃ next firedAt runId created records,
    s.getSchedule r₀.id = some (r₀.advanced next firedAt runId)
    ∧ s.scheduledFors r₀.id = start.scheduledFors r₀.id ++ created
    ∧ s.audit = start.audit ++ records
    ∧ Ledger occ r₀.id (start.scheduledFors r₀.id) first next created records

theorem firedFor_cases (hz : validateTimezone zones r.timezone = .ok zone) (hs : zone.Sparse r.cron)
    (hdue : dueAt ∈ zone.occurrences r.cron) (hle : dueAt ≤ now)
    (hfew : {o | o ∈ zone.occurrences r.cron ∧ dueAt < o ∧ o ≤ now}.encard < (100000 : ℕ))
    (h : firedFor zones now dueAt late r = .ok scheduledFor) :
    (late = false ∧ scheduledFor = dueAt) ∨ (late = true ∧ dueAt ≤ scheduledFor
      ∧ IsGreatest {x | x ∈ zone.occurrences r.cron ∧ x ≤ now} scheduledFor) := by
  unfold firedFor at h
  cases late with
  | false => exact .inl ⟨rfl, (ok.inj h).symm⟩
  | true => exact .inr ⟨rfl, latestFrom_isGreatest hz hs hfew hdue hle h⟩

theorem scheduledFors_append (h : s'.db.origins = s.db.origins ++ runs) (id : ScheduleId) :
    s'.scheduledFors id = s.scheduledFors id ++ runs.filterMap (forOrigin id) := by
  rw [scheduledFors_eq, scheduledFors_eq, h, filterMap_append]

namespace Tracks

theorem fired_other (h : Tracks start r₀ occ first s)
    (hfired : Fired r scheduledFor next runs records s s') (hne : r.id ≠ r₀.id) :
    Tracks start r₀ occ first s' := by
  obtain ⟨next₀, firedAt, runId, created, recs, hrow, hruns, haudit, hledger⟩ := h.ledger
  obtain ⟨firedAt', runId', hschedules⟩ := hfired.schedules
  have hnone : runs.filterMap (forOrigin r₀.id) = [] := by
    refine filterMap_eq_nil_iff.2 fun o ho => ?_
    rw [forOrigin, (hfired.ofRuns o ho).1, if_neg]
    exact fun heq => hne (some.inj heq)
  refine ⟨h.keyed.put hschedules (hfired.numbered h.keyed.runs), next₀, firedAt, runId, created,
    recs ++ records, ?_, ?_, ?_, hledger.other fun x hx => (hfired.ofRecords x hx).trans_ne hne⟩
  · exact (hfired.getSchedule_of_ne hne).trans hrow
  · rw [scheduledFors_append hfired.origins, hnone, append_nil, hruns]
  · rw [hfired.audit, haudit, append_assoc]

theorem fired_self {zone : Zone} (h : Tracks start r₀ (zone.occurrences r₀.cron) first s)
    (hz : validateTimezone zones r₀.timezone = .ok zone) (hs : zone.Sparse r₀.cron)
    (hrow : s.getSchedule r₀.id = some r) (havailable : s.Available r₀.installationId)
    (hdue : ∀ d, r.nextRunAt = some d → d ≤ now
      ∧ {o | o ∈ zone.occurrences r₀.cron ∧ d < o ∧ o ≤ now}.encard < (100000 : ℕ))
    (hfire : s.fire zones grace clk now r = .ok (result, s')) :
    Tracks start r₀ (zone.occurrences r₀.cron) first s' := by
  obtain ⟨next₀, firedAt, runId, created, recs, hrow', hruns, haudit, hledger⟩ := h.ledger
  obtain rfl := some.inj (hrow.symm.trans hrow')
  obtain ⟨dueAt, scheduledFor, next, late, runs, records, hdueAt, hfor, hnext, hfired, hadds⟩ :=
    fire_cases hfire
  obtain rfl := some.inj hdueAt
  obtain ⟨hle, hfew⟩ := hdue next₀ rfl
  have hadds := hadds havailable
  obtain ⟨firedAt', runId', hschedules⟩ := hfired.schedules
  have hfollows : NextIn (zone.occurrences r₀.cron)
      (if late = true then now else scheduledFor) next :=
    (nextOccurrence_eq hz hs).1 hnext
  -- what was created before is for earlier times
  have hmade : next₀ ≤ scheduledFor →
      Ledger.made (s.scheduledFors r₀.id) scheduledFor
        = Ledger.made (start.scheduledFors r₀.id) scheduledFor := by
    intro hge
    have hnot : scheduledFor ∉ created := fun hmem => absurd (hledger.lt _ hmem) (not_lt.2 hge)
    simp only [Ledger.made, hruns, mem_append, hnot, or_false]
  have hbooks : Ledger (zone.occurrences r₀.cron) r₀.id (start.scheduledFors r₀.id) first next
      (created ++ runs.filterMap (forOrigin r₀.id)) (recs ++ records) := by
    rcases firedFor_cases hz hs hledger.next_mem hle hfew hfor with
      ⟨rfl, rfl⟩ | ⟨rfl, hge, hgreatest⟩
    · rcases hadds with ⟨hlate, -⟩ | ⟨hrunsmade, rfl⟩
      · exact absurd hlate Bool.false_ne_true
      · have hrunsmade : runs.filterMap (forOrigin r₀.id) = _ := hrunsmade.trans (hmade le_rfl)
        rw [hrunsmade, if_neg Bool.false_ne_true, append_nil]
        exact hledger.onTime hfollows
    · rcases hadds with ⟨-, rfl, rfl⟩ | ⟨hrunsmade, rfl⟩
      · rw [filterMap_nil, append_nil]
        exact hledger.skip hgreatest hge hfollows
      · have hrunsmade : runs.filterMap (forOrigin r₀.id) = _ := hrunsmade.trans (hmade hge)
        rw [hrunsmade]
        exact hledger.fireOnce hgreatest hge hfollows
  refine ⟨h.keyed.put hschedules (hfired.numbered h.keyed.runs), next, firedAt', runId', _,
    recs ++ records, ?_, ?_, ?_, hbooks⟩
  · rw [getSchedule, hschedules]
    exact get_put_self (a := (r₀.advanced next₀ firedAt runId).advanced next firedAt' runId') hrow
  · rw [scheduledFors_append hfired.origins, hruns, append_assoc]
  · rw [hfired.audit, haudit, append_assoc]

end Tracks

theorem due_mem (h : r ∈ s.due now locked) :
    r ∈ s.schedules ∧ ∀ d, r.nextRunAt = some d → d ≤ now := by
  have hmem := mem_mergeSort.1 (mem_of_mem_take h)
  simp only [mem_filter, Bool.and_eq_true] at hmem
  refine ⟨hmem.1, fun d hd => ?_⟩
  have hany := hmem.2.1.2
  rw [hd] at hany
  simpa using hany

theorem due_nodup (h : (s.schedules.map Schedule.id).Nodup) :
    ((s.due now locked).map Schedule.id).Nodup := by
  refine List.Nodup.sublist ((take_sublist _ _).map Schedule.id) ?_
  refine ((mergeSort_perm _ _).map Schedule.id).nodup_iff.2 ?_
  exact h.sublist (filter_sublist.map Schedule.id)

/-- In a tick that began at `s`, before the rows of `rest` are fired. -/
structure Ticking (start : Scheduling) (r₀ : Schedule) (occ : Set Time) (first now : Time)
    (s : Scheduling) (rest : List Schedule) (t : Scheduling) : Prop where
  tracks : Tracks start r₀ occ first t
  installations : t.installations = s.installations
  versions : t.versions = s.versions
  nodup : (rest.map Schedule.id).Nodup
  rows : ∀ r ∈ rest, s.getSchedule r.id = some r ∧ t.getSchedule r.id = some r
    ∧ ∀ d, r.nextRunAt = some d → d ≤ now

theorem Available.congr {id : InstallationId} (h : s.Available id)
    (hinstallations : t.installations = s.installations) (hversions : t.versions = s.versions) :
    t.Available id := by
  simp only [Available, getInstallation, getVersion] at h ⊢
  rw [hinstallations, hversions]
  exact h

theorem Available.tick {id : InstallationId} {clk : ScheduleId → Clock} (h : s.Available id) :
    (s.commit ((s.tick zones grace now locked clk).map Prod.snd)).Available id := by
  unfold commit
  split
  · rename_i t ht
    obtain ⟨⟨results, u⟩, htick, rfl⟩ := map_eq_ok.1 ht
    refine foldlM_consumes (P := fun _ (b : List FireResult × Scheduling) => b.2.Available id)
      (fun hb hstep => ?_) h htick
    obtain ⟨⟨result, v⟩, hfire, hstep⟩ := bind_eq_ok.1 hstep
    obtain rfl := ok.inj hstep
    obtain ⟨-, scheduledFor, next, -, runs, records, -, -, -, hfired, -⟩ := fire_cases hfire
    exact hb.congr hfired.installations hfired.versions
  · exact h

section Tick

variable (hz : validateTimezone zones r₀.timezone = .ok zone) (hs : zone.Sparse r₀.cron)
  (havailable : s.Available r₀.installationId)
  (hfew : ∀ r, s.getSchedule r₀.id = some r → ∀ d, r.nextRunAt = some d →
    {o | o ∈ zone.occurrences r₀.cron ∧ d < o ∧ o ≤ now}.encard < (100000 : ℕ))

include hz hs havailable hfew

theorem Ticking.fire {rest : List Schedule}
    (h : Ticking start r₀ (zone.occurrences r₀.cron) first now s (r :: rest) t)
    (hfire : t.fire zones grace clk now r = .ok (result, s')) :
    Ticking start r₀ (zone.occurrences r₀.cron) first now s rest s' := by
  obtain ⟨hrowS, hrowT, hdue⟩ := h.rows r mem_cons_self
  obtain ⟨-, scheduledFor, next, -, runs, records, -, -, -, hfired, -⟩ := fire_cases hfire
  have hnodup := nodup_cons.1 h.nodup
  have htracks : Tracks start r₀ (zone.occurrences r₀.cron) first s' := by
    by_cases hid : r.id = r₀.id
    · rw [hid] at hrowS hrowT
      exact h.tracks.fired_self hz hs hrowT (havailable.congr h.installations h.versions)
        (fun d hd => ⟨hdue d hd, hfew r hrowS d hd⟩) hfire
    · exact h.tracks.fired_other hfired hid
  refine ⟨htracks, hfired.installations.trans h.installations, hfired.versions.trans h.versions,
    hnodup.2, fun x hx => ?_⟩
  obtain ⟨hxs, hxt, hxdue⟩ := h.rows x (mem_cons_of_mem _ hx)
  have hne : r.id ≠ x.id := fun heq => hnodup.1 (heq ▸ mem_map_of_mem hx)
  exact ⟨hxs, (hfired.getSchedule_of_ne hne).trans hxt, hxdue⟩

theorem Tracks.tick {clk : ScheduleId → Clock} {results : List FireResult}
    (h : Tracks start r₀ (zone.occurrences r₀.cron) first s)
    (htick : s.tick zones grace now locked clk = .ok (results, s')) :
    Tracks start r₀ (zone.occurrences r₀.cron) first s' := by
  have hticking : Ticking start r₀ (zone.occurrences r₀.cron) first now s (s.due now locked) s := by
    refine ⟨h, rfl, rfl, due_nodup h.keyed.nodup, fun r hr => ?_⟩
    obtain ⟨hmem, hdue⟩ := due_mem hr
    exact ⟨get_of_mem h.keyed.nodup hmem, get_of_mem h.keyed.nodup hmem, hdue⟩
  have hend := foldlM_consumes
    (P := fun rest (b : List FireResult × Scheduling) =>
      Ticking start r₀ (zone.occurrences r₀.cron) first now s rest b.2)
    (fun hb hstep => ?_) hticking htick
  · exact hend.tracks
  · obtain ⟨⟨result, u⟩, hfire, hstep⟩ := bind_eq_ok.1 hstep
    obtain rfl := ok.inj hstep
    exact Ticking.fire hz hs havailable hfew hb hfire

end Tick

/-- The schedule is left as it is, and its installation can run and fewer than 100 000 occurrences
are missed at every tick. -/
def Undisturbed (zone : Zone) (r₀ : Schedule) : ScheduleAction → Scheduling → Prop
  | .tick now _ _, s => s.Available r₀.installationId
    ∧ ∀ r, s.getSchedule r₀.id = some r → ∀ d, r.nextRunAt = some d →
      {o | o ∈ zone.occurrences r₀.cron ∧ d < o ∧ o ≤ now}.encard < (100000 : ℕ)
  | .update _ _ id _, _ | .delete _ _ id, _ => id ≠ r₀.id
  | .create .., _ | .transact .., _ | .publish _, _ | .install _, _ | .change _, _ => True

/-- The runs of the schedule and its records since `start` account for the occurrences from `first`
to its `next_run_at`. -/
def Accounted (start : Scheduling) (id : ScheduleId) (occ : Set Time) (first : Time)
    (s : Scheduling) : Prop :=
  ∃ next created records, (s.getSchedule id).bind Schedule.nextRunAt = some next
    ∧ s.scheduledFors id = start.scheduledFors id ++ created
    ∧ s.audit = start.audit ++ records
    ∧ Ledger occ id (start.scheduledFors id) first next created records

theorem Tracks.accounted (h : Tracks start r₀ occ first s) :
    Accounted start r₀.id occ first s := by
  obtain ⟨next, firedAt, runId, created, records, hrow, hruns, haudit, hledger⟩ := h.ledger
  refine ⟨next, created, records, ?_, hruns, haudit, hledger⟩
  rw [hrow]
  rfl

theorem Tracks.of_eq (h : Tracks start r₀ occ first s) (hkeyed : s'.Keyed)
    (hrow : s'.getSchedule r₀.id = s.getSchedule r₀.id)
    (hruns : s'.scheduledFors r₀.id = s.scheduledFors r₀.id) (haudit : s'.audit = s.audit) :
    Tracks start r₀ occ first s' := by
  obtain ⟨next, firedAt, runId, created, records, hrow', hruns', haudit', hledger⟩ := h.ledger
  exact ⟨hkeyed, next, firedAt, runId, created, records, hrow.trans hrow', hruns.trans hruns',
    haudit.trans haudit', hledger⟩

theorem Tracks.setSchedule (h : Tracks start r₀ occ first s) (hne : r.id ≠ r₀.id) :
    Tracks start r₀ occ first (s.setSchedule r) :=
  h.of_eq (h.keyed.put rfl h.keyed.runs) (get_put_of_ne hne) rfl rfl

theorem ownSchedule_eq (h : s.ownSchedule id user = .ok r) : s.getSchedule id = some r := by
  unfold ownSchedule at h
  split at h
  · rename_i row hrow
    split_ifs at h
    obtain rfl := ok.inj h
    exact hrow
  · exact absurd h nofun

theorem lt_of_firstRun {cron : Expression} {timezone : String} {enabled : Bool} {n : Option Time}
    (h : firstRun zones now cron timezone enabled = .ok n) : ∀ t, n = some t → now < t := by
  rintro t rfl
  unfold firstRun at h
  split_ifs at h
  · obtain ⟨o, ho, heq⟩ := map_eq_ok.1 h
    exact some.inj heq ▸ lt_of_nextOccurrence ho
  · exact absurd (ok.inj h) nofun

theorem updateSchedule_cases {patch : SchedulePatch}
    (h : s.updateSchedule zones now user id patch = .ok s') :
    ∃ old r : Schedule, s.getSchedule id = some old ∧ r.id = id ∧ s' = s.setSchedule r
      ∧ (r.nextRunAt = old.nextRunAt ∨ ∀ n, r.nextRunAt = some n → now < n) := by
  obtain ⟨old, hold, h⟩ := bind_eq_ok.1 h
  have hold := ownSchedule_eq (raising_eq_ok.1 hold)
  have hid : old.id = id := get_key hold
  split_ifs at h
  obtain ⟨-, -, h⟩ := bind_eq_ok.1 h
  dsimp only at h
  split_ifs at h
  · obtain ⟨nextRunAt, hnext, h⟩ := bind_eq_ok.1 h
    refine ⟨old, _, hold, ?_, (ok.inj h).symm, .inr ?_⟩
    · exact hid
    · exact lt_of_firstRun (raising_eq_ok.1 hnext)
  · refine ⟨old, _, hold, ?_, (ok.inj h).symm, .inl rfl⟩
    exact hid

theorem createSchedule_cases {installationId : InstallationId} {cron : Expression}
    {timezone : String} {policy : MisfirePolicy} {enabled : Bool}
    (h : s.createSchedule zones now user installationId cron timezone policy enabled = .ok s') :
    ∃ r : Schedule, r.id = s.schedules.length ∧ s' = { s with schedules := s.schedules ++ [r] }
      ∧ ∀ n, r.nextRunAt = some n → now < n := by
  obtain ⟨installation, -, h⟩ := bind_eq_ok.1 h
  split at h
  · exact absurd h nofun
  · split_ifs at h
    obtain ⟨-, -, h⟩ := bind_eq_ok.1 h
    obtain ⟨nextRunAt, hnext, h⟩ := bind_eq_ok.1 h
    refine ⟨_, rfl, (ok.inj h).symm, ?_⟩
    exact lt_of_firstRun (raising_eq_ok.1 hnext)

theorem deleteSchedule_cases (h : s.deleteSchedule now user id = .ok s') :
    ∃ r : Schedule, r.id = id ∧ s' = s.setSchedule r ∧ r.nextRunAt = none := by
  obtain ⟨r, hr, h⟩ := bind_eq_ok.1 h
  have hid : r.id = id := get_key (ownSchedule_eq (raising_eq_ok.1 hr))
  refine ⟨_, ?_, (ok.inj h).symm, rfl⟩
  exact hid

theorem Keyed.create (h : s.Keyed) (hid : r.id = s.schedules.length) :
    Keyed { s with schedules := s.schedules ++ [r] } :=
  ⟨by simp [h.ids, hid, range_succ], h.runs⟩

theorem transact_frame (h : s.Keyed) {op : DbOp} (hop : unscheduled op = true) :
    Keyed { s with db := s.db.commit G clk op }
      ∧ ∀ id, scheduledFors id { s with db := s.db.commit G clk op } = s.scheduledFors id := by
  unfold Db.commit
  split
  · rename_i db hdb
    rcases DbOp.origins h.runs hdb with hruns |
      ⟨installation, version, trigger, user, schedule, scheduledFor, parent, key, input, rfl, rfl⟩
    · refine ⟨⟨h.ids, hruns.numbered h.runs⟩, fun id => ?_⟩
      rw [scheduledFors_eq, scheduledFors_eq, hruns.origins]
    · obtain rfl : schedule = none := isNone_iff_eq_none.1 hop
      rcases Db.insertRun_cases clk installation version trigger user none scheduledFor parent key
        input s.db with ⟨d, -, heq⟩ | ⟨-, -, horigins, hnext⟩
      · rw [heq]
        exact ⟨h, fun _ => rfl⟩
      · refine ⟨⟨h.ids, h.runs.add horigins rfl hnext⟩, fun id => ?_⟩
        rw [scheduledFors_append horigins]
        exact append_nil _
  · exact ⟨h, fun _ => rfl⟩

theorem Tracks.create (h : Tracks start r₀ occ first s) (hid : r.id = s.schedules.length) :
    Tracks start r₀ occ first { s with schedules := s.schedules ++ [r] } := by
  refine h.of_eq (h.keyed.create hid) ?_ rfl rfl
  obtain ⟨next, firedAt, runId, created, records, hrow, -⟩ := h.ledger
  unfold getSchedule at hrow ⊢
  rw [get_append, hrow]
  rfl

theorem Tracks.step {a : ScheduleAction} (h : Tracks start r₀ (zone.occurrences r₀.cron) first s)
    (hz : validateTimezone zones r₀.timezone = .ok zone) (hs : zone.Sparse r₀.cron)
    (ha : Undisturbed zone r₀ a s) (hstep : (scheduling zones grace G).step a s = some s') :
    Tracks start r₀ (zone.occurrences r₀.cron) first s' := by
  change Scheduling.step zones grace G a s = some s' at hstep
  cases a with
  | tick now locked clk =>
    obtain rfl := some.inj hstep
    unfold commit
    split
    · rename_i t ht
      obtain ⟨⟨results, u⟩, htick, rfl⟩ := map_eq_ok.1 ht
      exact h.tick hz hs ha.1 ha.2 htick
    · exact h
  | create now user installationId cron timezone policy enabled =>
    obtain rfl := some.inj hstep
    unfold commit
    split
    · rename_i t ht
      obtain ⟨r, hid, rfl, -⟩ := createSchedule_cases ht
      exact h.create hid
    · exact h
  | update now user id patch =>
    obtain rfl := some.inj hstep
    unfold commit
    split
    · rename_i t ht
      obtain ⟨-, r, -, hid, rfl, -⟩ := updateSchedule_cases ht
      exact h.setSchedule (hid.trans_ne ha)
    · exact h
  | delete now user id =>
    obtain rfl := some.inj hstep
    unfold commit
    split
    · rename_i t ht
      obtain ⟨r, hid, rfl, -⟩ := deleteSchedule_cases ht
      exact h.setSchedule (hid.trans_ne ha)
    · exact h
  | transact =>
    obtain ⟨hop, hthen⟩ := ite_none_right_eq_some.1 hstep
    obtain rfl := some.inj hthen
    obtain ⟨hkeyed, hruns⟩ := transact_frame h.keyed hop
    exact h.of_eq hkeyed rfl (hruns r₀.id) rfl
  | publish | install | change =>
    obtain rfl := some.inj hstep
    exact h.of_eq ⟨h.keyed.ids, h.keyed.runs⟩ rfl rfl rfl

theorem Tracks.refl (hkeyed : s.Keyed) (hrow : s.getSchedule r₀.id = some r₀)
    (hnext : r₀.nextRunAt = some first) (hfirst : first ∈ occ) : Tracks s r₀ occ first s := by
  have hsame : r₀.advanced first r₀.lastFiredAt r₀.lastRunId = r₀ := by
    rw [Schedule.advanced, ← hnext]
  exact ⟨hkeyed, first, r₀.lastFiredAt, r₀.lastRunId, [], [], hsame.symm ▸ hrow,
    (append_nil _).symm, (append_nil _).symm, .nil hfirst⟩

/-- However ticks interleave with the rest, each occurrence of a schedule that is left alone is
fired for or in a range that is recorded, once. -/
theorem accounted_along {zone : Zone} (hkeyed : s.Keyed) (hrow : s.getSchedule r₀.id = some r₀)
    (hnext : r₀.nextRunAt = some first) (hz : validateTimezone zones r₀.timezone = .ok zone)
    (hs : zone.Sparse r₀.cron) (hfirst : first ∈ zone.occurrences r₀.cron)
    (actions : List ScheduleAction)
    (hmeets : (scheduling zones grace G).Meets (Undisturbed zone r₀) actions s) :
    (scheduling zones grace G).Along (Accounted s r₀.id (zone.occurrences r₀.cron) first) actions
      s := by
  have htracks := Machine.along_of_meets (fun _ _ _ h ha hstep => Tracks.step h hz hs ha hstep)
    actions (Tracks.refl hkeyed hrow hnext hfirst) hmeets
  exact htracks.mono fun _ h => h.accounted

def tenOClock : Schedule :=
  ⟨0, 0, daily 600, "UTC", some 36000, .fireOnce, true, none, none, 1, none⟩

def oneSchedule : Scheduling :=
  ⟨.empty, [tenOClock], [⟨⟨0, 0, .null, .null, .null, false, true, none⟩, 0, "brief"⟩],
    [⟨⟨0, 600, none, none⟩, "brief", ["schedule"]⟩], []⟩

theorem tenOClock_occurs : 36000 ∈ Zone.utc.occurrences (daily 600) := by
  refine ⟨36000, ⟨0, by norm_num [minute]⟩, .existing ⟨?_, fun t ht => ?_⟩⟩
  · norm_num [Zone.toLocal, Zone.utc, WallClock.toLocal]
  · have : t + 0 = 36000 := ht
    linarith

theorem daily_of_occurs {start : ℕ} {o : Time} (h : o ∈ Zone.utc.occurrences (daily start)) :
    ∃ day : ℤ, o = minute * (1440 * day + start) := by
  obtain ⟨naive, ⟨day, rfl⟩, hfires⟩ := h
  refine ⟨day, ?_⟩
  cases hfires with
  | existing hleast => exact (add_zero o).symm.trans hleast.1
  | nonexistent hgap => exact absurd ⟨_, add_zero _⟩ hgap

theorem few_tenOClock {d now : Time} (hd : 36000 ≤ d) (hnow : now ≤ 216000) :
    {o | o ∈ Zone.utc.occurrences (daily 600) ∧ d < o ∧ o ≤ now}.encard < (100000 : ℕ) := by
  have hsub : {o | o ∈ Zone.utc.occurrences (daily 600) ∧ d < o ∧ o ≤ now}
      ⊆ {(122400 : Time), 208800} := by
    rintro o ⟨ho, hlt, hle⟩
    obtain ⟨day, rfl⟩ := daily_of_occurs ho
    have hfrom : (0 : ℚ) < day := by push_cast [minute] at hlt; linarith
    have hto : (day : ℚ) < 3 := by push_cast [minute] at hle; linarith
    have hday : day = 1 ∨ day = 2 := by
      have := Int.cast_pos.1 hfrom
      have : day < 3 := by exact_mod_cast hto
      omega
    rcases hday with rfl | rfl <;> norm_num [minute]
  refine (Set.encard_le_encard hsub).trans_lt ?_
  rw [Set.encard_pair (by norm_num)]
  norm_num

/-- A tick at 10:00, and the next at noon two days later: 10:00 of the day between is missed. -/
theorem tenOClock_accounted : (scheduling (fun _ => none) 60 plainGuards).Along
    (Accounted oneSchedule 0 (Zone.utc.occurrences (daily 600)) 36000)
    [.tick 36000 [] fun _ _ => 36000, .tick 216000 [] fun _ _ => 216000] oneSchedule := by
  have hkeyed : oneSchedule.Keyed := ⟨rfl, nodup_nil, fun _ ho => absurd ho not_mem_nil⟩
  have hsparse : Zone.utc.Sparse (daily 600) := fun _ hr => absurd hr not_mem_nil
  have hrow : oneSchedule.getSchedule tenOClock.id = some tenOClock := rfl
  have hfirst : Undisturbed Zone.utc tenOClock (.tick 36000 [] fun _ _ => 36000) oneSchedule := by
    refine ⟨⟨_, rfl, rfl, _, rfl⟩, fun r hr d hd => ?_⟩
    obtain rfl := some.inj hr
    obtain rfl := some.inj hd
    exact few_tenOClock le_rfl (by norm_num)
  refine accounted_along hkeyed hrow rfl rfl hsparse tenOClock_occurs _
    fun s hs => ⟨hfirst, fun t ht => ⟨⟨?_, fun r hr d hd => ?_⟩, trivial⟩⟩
  · obtain rfl := some.inj hs
    exact hfirst.1.tick
  · have htracks := Tracks.step (Tracks.refl hkeyed hrow rfl tenOClock_occurs) rfl hsparse hfirst hs
    obtain ⟨next, firedAt, runId, created, recs, hrow', -, -, hledger⟩ := htracks.ledger
    obtain rfl := some.inj (hr.symm.trans hrow')
    obtain rfl := some.inj hd
    exact few_tenOClock hledger.first_le le_rfl

end

end Scheduling

end Crewquarters
