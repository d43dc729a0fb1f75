import Crewquarters.Keyed

/-!
# The idempotency store

What the store's functions do to its entries, and the invariant of its requests: every entry belongs
to a request with its key and fingerprint (`Keyed.Sound.owners`), and the entry of a call in
progress is in the map whatever else arrives (`Keyed.Sound.calling`).

A stream is exclusive as long as its own entry is in the map.
-/

namespace Crewquarters

namespace IdempotencyStore

variable {key : RequestKey} {print : String} {id : ℕ} {now : Time} {capacity : ℕ}
  {entries : List KeyedEntry} {e : KeyedEntry} {print : String} {key : RequestKey}
  {a : KeyedAction}

theorem get_eq_some (hn : (entries.map KeyedEntry.key).Nodup) :
    get key entries = some e ↔ e ∈ entries ∧ e.key = key := by
  constructor
  · intro h
    exact ⟨Table.get_mem h, Table.get_key h⟩
  · rintro ⟨he, rfl⟩
    exact Table.get_of_mem hn he

theorem get_eq_none : get key entries = none ↔ ∀ e ∈ entries, e.key ≠ key := Table.get_eq_none

theorem makeRoom_sublist : ∀ (keys : List RequestKey) (entries : List KeyedEntry),
    (makeRoom capacity keys entries).Sublist entries
  | [], entries => .refl entries
  | key :: keys, entries => by
    unfold makeRoom
    split_ifs
    · exact (makeRoom_sublist keys _).trans List.filter_sublist
    · exact .refl entries

theorem mem_makeRoom : ∀ {keys : List RequestKey} {entries : List KeyedEntry}, e ∈ entries →
    e.key ∉ keys → e ∈ makeRoom capacity keys entries
  | [], _, he, _ => he
  | key :: keys, entries, he, hkey => by
    rw [List.mem_cons, not_or] at hkey
    unfold makeRoom
    split_ifs
    · exact mem_makeRoom (List.mem_filter.2 ⟨he, by simpa using hkey.1⟩) hkey.2
    · exact he

theorem not_mem_completed (hn : (entries.map KeyedEntry.key).Nodup) (he : e ∈ entries)
    (hexpires : e.expires = none) : e.key ∉ completed entries := by
  intro hmem
  obtain ⟨d, hd, hkey⟩ := List.mem_map.1 hmem
  obtain ⟨hd, hsome⟩ := List.mem_filter.1 hd
  obtain rfl := List.inj_on_of_nodup_map hn hd he hkey
  simp [hexpires] at hsome

theorem add_of_free {maxEntries : ℕ} (h : get e.key entries = none) : add maxEntries e entries =
    makeRoom (max 1 maxEntries) (completed entries) entries ++ [e] := by
  have hfree : get e.key (makeRoom (max 1 maxEntries) (completed entries) entries) = none :=
    get_eq_none.2 fun d hd => get_eq_none.1 h d ((makeRoom_sublist _ _).subset hd)
  simp [add, hfree]

theorem mem_forget (hn : (entries.map KeyedEntry.key).Nodup) :
    e ∈ forget key id entries ↔ e ∈ entries ∧ ¬ (e.key = key ∧ e.id = id) := by
  unfold forget
  cases hget : get key entries with
  | none =>
    have hnone := get_eq_none.1 hget
    simp only [iff_self_and]
    exact fun he h => hnone e he h.1
  | some d =>
    obtain ⟨hd, hdkey⟩ := (get_eq_some hn).1 hget
    have hsame : e ∈ entries → e.key = key → e = d := fun he hk =>
      List.inj_on_of_nodup_map hn he hd (hk.trans hdkey.symm)
    dsimp only
    split_ifs with hid
    · simp only [List.mem_filter, decide_eq_true_eq]
      refine and_congr_right fun he => not_congr ⟨fun hk => ⟨hk, ?_⟩, And.left⟩
      rw [hsame he hk]
      exact hid
    · simp only [iff_self_and]
      rintro he ⟨hk, heid⟩
      rw [hsame he hk] at heid
      exact hid heid

theorem forget_sublist : (forget key id entries).Sublist entries := by
  unfold forget
  split
  · exact .refl _
  · split_ifs
    · exact List.filter_sublist
    · exact .refl _

end IdempotencyStore

namespace Keyed

open IdempotencyStore List Option

variable {ttl : ℚ} {maxEntries : ℕ} {s s' : Keyed} {r : KeyedRequest}
variable {key : RequestKey} {e : KeyedEntry}

/-- Every way a step can go. -/
inductive Did (ttl : ℚ) (maxEntries : ℕ) (s : Keyed) : KeyedAction → Keyed → Prop where
  | advanced {now} (later : s.clock ≤ now) :
      Did ttl maxEntries s (.advance now) { s with clock := now }
  /-- `run` finds the key used for another body or for a stream -/
  | runRefused {key print entry e} (found : get key s.evict.entries = some entry)
      (why : (entry.fingerprint ≠ print ∧ e = usedForOther)
        ∨ (entry.fingerprint = print ∧ entry.streaming = true
          ∧ e = IdempotencyStore.requestInProgress)) :
      Did ttl maxEntries s (.run key print) (s.evict.arrive key print (.ended (.refused e)))
  | waited {key entry} (found : get key s.evict.entries = some entry)
      (call : entry.streaming = false) : Did ttl maxEntries s (.run key entry.fingerprint)
        (s.evict.arrive key entry.fingerprint (.waiting entry.id))
  | invoked {key print} (free : get key s.evict.entries = none) :
      Did ttl maxEntries s (.run key print)
        (((s.evict.add maxEntries key print false none).note
          (.invoked s.requests.length key s.clock)).arrive key print .calling)
  | finished {r outcome} (request : s.getRequest r.id = some r) (calling : r.phase = .calling) :
      Did ttl maxEntries s (.finish r.id outcome) (s.finish ttl r outcome)
  | woke {r leader answer} (request : s.getRequest r.id = some r)
      (waiting : r.phase = .waiting leader.id) (lead : s.getRequest leader.id = some leader)
      (settled : leader.future = some answer) :
      Did ttl maxEntries s (.wake r.id)
        (s.setRequest { r with phase := .ended (.replayed leader.id answer) })
  | cancelled {r leader} (request : s.getRequest r.id = some r)
      (waiting : r.phase = .waiting leader) :
      Did ttl maxEntries s (.cancel r.id) (s.setRequest { r with phase := .ended .cancelled })
  | streamRefused {key print entry} (found : get key s.evict.entries = some entry)
      (running : entry.expires = none) :
      Did ttl maxEntries s (.stream key print)
        (s.evict.arrive key print (.ended (.refused IdempotencyStore.requestInProgress)))
  | claimed {key print} (free : get key s.evict.entries = none) :
      Did ttl maxEntries s (.stream key print)
        (((s.evict.add maxEntries key print true (some (s.clock + ttl))).note
          (.streamed s.requests.length key s.clock)).arrive key print (.streaming true))
  | unclaimed {key print entry} (found : get key s.evict.entries = some entry)
      (completed : entry.expires.isSome = true) :
      Did ttl maxEntries s (.stream key print)
        ((s.evict.note (.streamed s.requests.length key s.clock)).arrive key print
          (.streaming false))
  | streamEnded {r holds} (request : s.getRequest r.id = some r)
      (streaming : r.phase = .streaming holds) :
      Did ttl maxEntries s (.endStream r.id) (s.endStream r holds)
  | abandoned {r holds} (request : s.getRequest r.id = some r)
      (streaming : r.phase = .streaming holds) :
      Did ttl maxEntries s (.abandon r.id) (s.setRequest { r with phase := .ended .abandoned })

theorem did_run (key : RequestKey) (print : String) :
    s.Did ttl maxEntries (.run key print) (s.run maxEntries key print) := by
  unfold run existing
  cases hget : get key s.evict.entries with
  | none => exact .invoked hget
  | some =>
    dsimp only
    split_ifs with hprint hstreaming
    · exact .runRefused hget (.inl ⟨hprint, rfl⟩)
    · exact .runRefused hget (.inr ⟨not_not.1 hprint, hstreaming, rfl⟩)
    · obtain rfl := not_not.1 hprint
      exact .waited hget (by simpa using hstreaming)

theorem run_of_free (h : get key s.evict.entries = none) (print : String) :
    s.run maxEntries key print = ((s.evict.add maxEntries key print false none).note
      (.invoked s.requests.length key s.clock)).arrive key print .calling := by
  simp only [run, existing, h]

theorem run_of_call (h : get key s.evict.entries = some e) (hcall : e.streaming = false) :
    s.run maxEntries key e.fingerprint
      = s.evict.arrive key e.fingerprint (.waiting e.id) := by
  simp [run, existing, h, hcall]

theorem run_of_other (h : get key s.evict.entries = some e) (hprint : e.fingerprint ≠ print) :
    s.run maxEntries key print
      = s.evict.arrive key print (.ended (.refused usedForOther)) := by
  simp [run, existing, h, hprint]

theorem did_stream (key : RequestKey) (print : String) :
    s.Did ttl maxEntries (.stream key print) (s.stream ttl maxEntries key print) := by
  unfold stream
  cases hget : get key s.evict.entries with
  | none => exact .claimed hget
  | some =>
    dsimp only
    split_ifs with hexpires
    · exact .streamRefused hget (by simpa using hexpires)
    · exact .unclaimed hget (by simpa [isSome_iff_ne_none] using hexpires)

theorem getRequest_id {id : ℕ} (h : s.getRequest id = some r) : r.id = id := Table.get_key h

theorem did_of_step (h : (keyedRequests ttl maxEntries).step a s = some s') :
    s.Did ttl maxEntries a s' := by
  cases a with
  | advance =>
    simp only [keyedRequests, step] at h
    split_ifs at h with hle
    obtain rfl := some.inj h
    exact .advanced hle
  | run key print =>
    obtain rfl := some.inj h
    exact did_run key print
  | finish id outcome =>
    obtain ⟨r, hr, hthen⟩ := bind_eq_some_iff.1 h
    obtain rfl := getRequest_id hr
    split at hthen
    · rename_i hphase
      obtain rfl := some.inj hthen
      exact .finished hr hphase
    · exact absurd hthen nofun
  | wake id =>
    obtain ⟨r, hr, hthen⟩ := bind_eq_some_iff.1 h
    obtain rfl := getRequest_id hr
    split at hthen
    · rename_i leader hphase
      obtain ⟨answer, hanswer, rfl⟩ := map_eq_some_iff.1 hthen
      obtain ⟨l, hl, hfuture⟩ := bind_eq_some_iff.1 hanswer
      obtain rfl := getRequest_id hl
      exact .woke hr hphase hl hfuture
    · exact absurd hthen nofun
  | cancel id =>
    obtain ⟨r, hr, hthen⟩ := bind_eq_some_iff.1 h
    obtain rfl := getRequest_id hr
    split at hthen
    · rename_i hphase
      obtain rfl := some.inj hthen
      exact .cancelled hr hphase
    · exact absurd hthen nofun
  | stream key print =>
    obtain rfl := some.inj h
    exact did_stream key print
  | endStream id =>
    obtain ⟨r, hr, hthen⟩ := bind_eq_some_iff.1 h
    obtain rfl := getRequest_id hr
    split at hthen
    · rename_i hphase
      obtain rfl := some.inj hthen
      exact .streamEnded hr hphase
    · exact absurd hthen nofun
  | abandon id =>
    obtain ⟨r, hr, hthen⟩ := bind_eq_some_iff.1 h
    obtain rfl := getRequest_id hr
    split at hthen
    · rename_i hphase
      obtain rfl := some.inj hthen
      exact .abandoned hr hphase
    · exact absurd hthen nofun

def Fits (e : KeyedEntry) : KeyedPhase → Prop
  | .calling => e.streaming = false ∧ e.expires = none ∧ e.staleAfter = none
  | .ended (.returned outcome) => outcome.kept = true ∧ e.streaming = false
      ∧ e.expires.isSome = true ∧ e.staleAfter = none
  | .streaming true | .ended .abandoned => e.streaming = true ∧ e.expires = none
  | _ => False

/-- One entry a key, made by the request that has its id. -/
structure Sound (s : Keyed) : Prop where
  ids : s.requests.map KeyedRequest.id = List.range s.requests.length
  keys : (s.entries.map KeyedEntry.key).Nodup
  owners : ∀ e ∈ s.entries, ∃ r ∈ s.requests, r.id = e.id ∧ r.key = e.key
    ∧ r.print = e.fingerprint ∧ Fits e r.phase
  calling : ∀ r ∈ s.requests, r.phase = .calling → ∃ e ∈ s.entries, e.id = r.id

namespace Sound

variable {e : KeyedEntry} {phase : KeyedPhase}

theorem nodup (hs : s.Sound) : (s.requests.map KeyedRequest.id).Nodup := by
  rw [hs.ids]
  exact nodup_range

theorem eq_of_id (hs : s.Sound) {x y : KeyedRequest} (hx : x ∈ s.requests) (hy : y ∈ s.requests)
    (h : x.id = y.id) : x = y :=
  inj_on_of_nodup_map hs.nodup hx hy h

theorem getRequest (hs : s.Sound) (hr : r ∈ s.requests) : s.getRequest r.id = some r :=
  Table.get_of_mem hs.nodup hr

theorem owner (hs : s.Sound) (he : e ∈ s.entries) (hr : r ∈ s.requests) (hid : e.id = r.id) :
    r.key = e.key ∧ r.print = e.fingerprint ∧ Fits e r.phase := by
  obtain ⟨x, hx, hxid, hkey, hprint, hfits⟩ := hs.owners e he
  obtain rfl := hs.eq_of_id hx hr (hxid.trans hid)
  exact ⟨hkey, hprint, hfits⟩

theorem entry_eq (hs : s.Sound) {d : KeyedEntry} (hd : d ∈ s.entries) (he : e ∈ s.entries)
    (h : d.key = e.key) : d = e :=
  inj_on_of_nodup_map hs.keys hd he h

theorem mem_evict (he : e ∈ s.entries) (hexpires : e.expires = none)
    (hstale : ∀ u, e.staleAfter = some u → s.clock < u) : e ∈ s.evict.entries := by
  refine mem_filter.2 ⟨he, ?_⟩
  cases hu : e.staleAfter with
  | none => simp [fresh, hexpires, hu]
  | some u => simpa [fresh, hexpires, hu] using hstale u hu

section

variable (hs : s.Sound)
include hs

theorem evict : s.evict.Sound where
  ids := hs.ids
  keys := hs.keys.sublist (filter_sublist.map _)
  owners e he := hs.owners e (mem_filter.1 he).1
  calling r hr hphase := by
    obtain ⟨e, he, hid⟩ := hs.calling r hr hphase
    obtain ⟨-, -, hfits⟩ := hs.owner he hr hid
    rw [hphase] at hfits
    exact ⟨e, mem_evict he hfits.2.1 (by simp [hfits.2.2]), hid⟩

theorem note (event : KeyedEvent) : (s.note event).Sound :=
  ⟨hs.ids, hs.keys, hs.owners, hs.calling⟩

theorem arrive (hphase : phase ≠ .calling) :
    (s.arrive key print phase).Sound where
  ids := by simp [Keyed.arrive, hs.ids, range_succ]
  keys := hs.keys
  owners e he := by
    obtain ⟨r, hr, h⟩ := hs.owners e he
    exact ⟨r, mem_append_left _ hr, h⟩
  calling r hr hcalling := by
    rcases mem_append.1 hr with hr | hr
    · exact hs.calling r hr hcalling
    · rw [mem_singleton.1 hr] at hcalling
      exact absurd hcalling hphase

theorem enter {streaming : Bool} {staleAfter : Option Time} (event : KeyedEvent)
    (hfree : get key s.entries = none)
    (hfits : Fits ⟨s.requests.length, key, print, streaming, none, staleAfter⟩ phase) :
    (((s.add maxEntries key print streaming staleAfter).note event).arrive key print
      phase).Sound := by
  have hids : ∀ new : KeyedRequest, new.id = s.requests.length →
      (s.requests ++ [new]).map KeyedRequest.id = List.range (s.requests ++ [new]).length := by
    intro new hnew
    simp [hs.ids, hnew, range_succ]
  let new : KeyedEntry := ⟨s.requests.length, key, print, streaming, none, staleAfter⟩
  let room := makeRoom (max 1 maxEntries) (completed s.entries) s.entries
  have hentries : (s.add maxEntries key print streaming staleAfter).entries = room ++ [new] :=
    add_of_free hfree
  have hroom : room.Sublist s.entries := makeRoom_sublist _ _
  refine ⟨hids _ rfl, ?_, fun e he => ?_, fun r hr hphase => ?_⟩
  · change ((s.add maxEntries key print streaming staleAfter).entries.map KeyedEntry.key).Nodup
    rw [hentries, map_append, nodup_append]
    refine ⟨hs.keys.sublist (hroom.map _), by simp, fun a ha b hb => ?_⟩
    obtain ⟨e, he, rfl⟩ := mem_map.1 ha
    obtain rfl : b = key := by simpa [new] using hb
    exact get_eq_none.1 hfree e (hroom.subset he)
  · change e ∈ (s.add maxEntries key print streaming staleAfter).entries at he
    rw [hentries] at he
    rcases mem_append.1 he with he | he
    · obtain ⟨r, hr, h⟩ := hs.owners e (hroom.subset he)
      exact ⟨r, mem_append_left _ hr, h⟩
    · obtain rfl := mem_singleton.1 he
      exact ⟨_, mem_append_right _ (mem_singleton.2 rfl), rfl, rfl, rfl, hfits⟩
  · change ∃ e ∈ (s.add maxEntries key print streaming staleAfter).entries, e.id = r.id
    rw [hentries]
    rcases mem_append.1 hr with hr | hr
    · obtain ⟨e, he, hid⟩ := hs.calling r hr hphase
      obtain ⟨-, -, hfit⟩ := hs.owner he hr hid
      rw [hphase] at hfit
      have hin : e ∈ room := mem_makeRoom he (not_mem_completed hs.keys he hfit.2.1)
      exact ⟨e, mem_append_left _ hin, hid⟩
    · obtain rfl := mem_singleton.1 hr
      exact ⟨new, mem_append_right _ (mem_singleton.2 rfl), rfl⟩

theorem moved (r' : KeyedRequest) (hr : r ∈ s.requests) (hid : r'.id = r.id) (hkey : r'.key = r.key)
    (hprint : r'.print = r.print) (hphase : r'.phase ≠ .calling)
    (hrequests : s'.requests = Table.put KeyedRequest.id r' s.requests)
    (hkeys : (s'.entries.map KeyedEntry.key).Nodup)
    (hstay : ∀ e ∈ s.entries, e.id ≠ r.id → e ∈ s'.entries)
    (hback : ∀ d ∈ s'.entries, (d.id ≠ r.id ∧ d ∈ s.entries) ∨ ∃ e ∈ s.entries, e.id = r.id
      ∧ d.id = e.id ∧ d.key = e.key ∧ d.fingerprint = e.fingerprint
      ∧ (Fits e r.phase → Fits d r'.phase)) :
    s'.Sound := by
  have hself : r' ∈ s'.requests := by
    rw [hrequests]
    exact Table.mem_put_self hr hid.symm
  refine ⟨?_, hkeys, fun d hd => ?_, fun x hx hcalling => ?_⟩
  · rw [hrequests, Table.map_key_put, hs.ids]
    simp [Table.put]
  · rcases hback d hd with ⟨hne, hd⟩ | ⟨e, he, heid, hdid, hdkey, hdprint, hfits⟩
    · obtain ⟨x, hx, hxid, h⟩ := hs.owners d hd
      refine ⟨x, ?_, hxid, h⟩
      rw [hrequests]
      exact Table.mem_put_of_mem hx (by rw [hxid, hid]; exact hne)
    · obtain ⟨hrkey, hrprint, hrfits⟩ := hs.owner he hr heid
      exact ⟨r', hself, by rw [hid, hdid, heid], by rw [hkey, hrkey, hdkey],
        by rw [hprint, hrprint, hdprint], hfits hrfits⟩
  · rw [hrequests] at hx
    rcases Table.mem_put hx with rfl | ⟨hx, hne⟩
    · exact absurd hcalling hphase
    · obtain ⟨e, he, heid⟩ := hs.calling x hx hcalling
      exact ⟨e, hstay e he (by rw [heid, ← hid]; exact hne), heid⟩

theorem setPhase (hr : r ∈ s.requests) (hphase : phase ≠ .calling)
    (hfits : ∀ e, Fits e r.phase → Fits e phase) : (s.setRequest { r with phase }).Sound := by
  refine hs.moved { r with phase } hr rfl rfl rfl hphase rfl hs.keys (fun e he _ => he)
    fun e he => ?_
  by_cases hid : e.id = r.id
  · exact .inr ⟨e, he, hid, rfl, rfl, rfl, hfits e⟩
  · exact .inl ⟨hid, he⟩

theorem forgets (r' : KeyedRequest) (hr : r ∈ s.requests) (hid : r'.id = r.id)
    (hkey : r'.key = r.key) (hprint : r'.print = r.print) (hphase : r'.phase ≠ .calling)
    (hrequests : s'.requests = Table.put KeyedRequest.id r' s.requests)
    (hentries : s'.entries = forget r.key r.id s.entries) : s'.Sound := by
  refine hs.moved r' hr hid hkey hprint hphase hrequests ?_ (fun e he hne => ?_) fun d hd => ?_
  · rw [hentries]
    exact hs.keys.sublist (forget_sublist.map _)
  · rw [hentries, mem_forget hs.keys]
    exact ⟨he, fun h => hne h.2⟩
  · rw [hentries, mem_forget hs.keys] at hd
    refine .inl ⟨fun h => hd.2 ⟨?_, h⟩, hd.1⟩
    exact (hs.owner hd.1 hr h).1.symm

theorem finish (hr : r ∈ s.requests) (hcalling : r.phase = .calling) (outcome : CallOutcome) :
    (s.finish ttl r outcome).Sound := by
  let r' : KeyedRequest :=
    { r with phase := .ended (.returned outcome), future := some outcome.settled }
  cases hkept : outcome.kept with
  | false =>
    refine hs.forgets r' hr rfl rfl rfl nofun rfl ?_
    simp [Keyed.finish, Keyed.setRequest, Keyed.note, hkept]
  | true =>
    have hentries : (s.finish ttl r outcome).entries = complete r.id (s.clock + ttl) s.entries := by
      simp [Keyed.finish, Keyed.setRequest, Keyed.note, hkept]
    refine hs.moved r' hr rfl rfl rfl nofun rfl ?_ (fun e he hne => ?_) fun d hd => ?_
    · rw [hentries, complete, List.map_map]
      have hkeys : s.entries.map (KeyedEntry.key ∘ fun e =>
          if e.id = r.id then { e with expires := some (s.clock + ttl) } else e)
          = s.entries.map KeyedEntry.key := by
        refine map_congr_left fun e _ => ?_
        simp only [Function.comp_apply]
        split_ifs <;> rfl
      rw [hkeys]
      exact hs.keys
    · rw [hentries]
      exact mem_map.2 ⟨e, he, if_neg hne⟩
    · rw [hentries] at hd
      obtain ⟨e, he, rfl⟩ := mem_map.1 hd
      by_cases hid : e.id = r.id
      · refine .inr ⟨e, he, hid, ?_⟩
        rw [if_pos hid, hcalling]
        exact ⟨rfl, rfl, rfl, fun hfits => ⟨hkept, hfits.1, rfl, hfits.2.2⟩⟩
      · rw [if_neg hid]
        exact .inl ⟨hid, he⟩

theorem endStream {holds : Bool} (hr : r ∈ s.requests) (hstreaming : r.phase = .streaming holds) :
    (s.endStream r holds).Sound := by
  cases holds with
  | true => exact hs.forgets { r with phase := .ended .streamed } hr rfl rfl rfl nofun rfl rfl
  | false =>
    have hfits : ∀ e, Fits e r.phase → Fits e (.ended .streamed) := fun e h => by
      rw [hstreaming] at h
      exact h
    exact hs.setPhase hr nofun hfits

theorem did (hdid : s.Did ttl maxEntries a s') : s'.Sound := by
  cases hdid with
  | advanced => exact ⟨hs.ids, hs.keys, hs.owners, hs.calling⟩
  | runRefused | waited => exact hs.evict.arrive nofun
  | invoked free => exact hs.evict.enter _ free ⟨rfl, rfl, rfl⟩
  | finished request calling => exact hs.finish (Table.get_mem request) calling _
  | woke request waiting | cancelled request waiting =>
    exact hs.setPhase (Table.get_mem request) nofun (by simp [waiting, Fits])
  | streamRefused => exact hs.evict.arrive nofun
  | claimed free => exact hs.evict.enter _ free ⟨rfl, rfl⟩
  | unclaimed => exact (hs.evict.note _).arrive nofun
  | streamEnded request streaming => exact hs.endStream (Table.get_mem request) streaming
  | @abandoned r holds request streaming =>
    refine hs.setPhase (Table.get_mem request) nofun fun e hfits => ?_
    rw [streaming] at hfits
    cases holds with
    | true => exact hfits
    | false => exact absurd hfits nofun

end

theorem empty : Keyed.empty.Sound :=
  ⟨rfl, nodup_nil, fun _ he => absurd he not_mem_nil,
    fun _ hr => absurd hr not_mem_nil⟩

end Sound

/-- One entry a key, and a call in progress keeps its entry. -/
theorem entries_owned (ttl : ℚ) (maxEntries : ℕ) (actions : List KeyedAction) :
    (keyedRequests ttl maxEntries).Along Sound actions empty :=
  Machine.along_of_step (fun _ _ _ hs h => hs.did (did_of_step h)) actions .empty

/-- At most one request a key is executing, and while a stream runs, whatever else arrives with
its key is refused and starts nothing. -/
structure Exclusive (ttl : ℚ) (maxEntries : ℕ) (s : Keyed) : Prop where
  single : ∀ key, (s.requests.filter fun r => r.key = key && r.phase.executing).length ≤ 1
  refuses : ∀ r ∈ s.requests, r.phase.isStreaming = true → ∀ print,
    ∀ a ∈ [KeyedAction.run r.key print, .stream r.key print],
    ∀ s', (keyedRequests ttl maxEntries).step a s = some s' →
      ∃ e : PlatformError, (e.code = "REQUEST_IN_PROGRESS" ∨ e.code = "INVALID_REQUEST")
        ∧ s'.requests = s.requests
          ++ [⟨s.requests.length, r.key, print, .ended (.refused e), none⟩]
        ∧ s'.log = s.log

/-- Every stream ends before its entry is stale, and none begins while a completed entry is stored
under its key. -/
def KeepsClaims (ttl : ℚ) : KeyedAction → Keyed → Prop
  | .advance now, s => ∀ r ∈ s.requests, r.phase.isStreaming = true →
    ∀ e ∈ s.entries, e.id = r.id → ∀ u, e.staleAfter = some u → now < u
  | .stream key _, s => match get key s.evict.entries with
    | none => 0 < ttl
    | some entry => entry.expires = none
  | _, _ => True

/-- Every stream that runs has its entry in the map, and it is not stale. -/
def Held (s : Keyed) : Prop :=
  ∀ r ∈ s.requests, r.phase.isStreaming = true →
    ∃ e ∈ s.entries, e.id = r.id ∧ ∀ u, e.staleAfter = some u → s.clock < u

theorem isCalling_iff {phase : KeyedPhase} : phase.isCalling = true ↔ phase = .calling := by
  cases phase <;> simp [KeyedPhase.isCalling]

theorem isStreaming_iff {phase : KeyedPhase} :
    phase.isStreaming = true ↔ ∃ holds, phase = .streaming holds := by
  cases phase <;> simp [KeyedPhase.isStreaming]

theorem Sound.streaming_entry (hs : s.Sound) (he : e ∈ s.entries) (hr : r ∈ s.requests)
    (hid : e.id = r.id) (hstreaming : r.phase.isStreaming = true) :
    e.streaming = true ∧ e.expires = none := by
  obtain ⟨-, -, hfits⟩ := hs.owner he hr hid
  obtain ⟨holds, hphase⟩ := isStreaming_iff.1 hstreaming
  rw [hphase] at hfits
  cases holds with
  | true => exact hfits
  | false => exact absurd hfits nofun

theorem Sound.completed_entry (hs : s.Sound) (he : e ∈ s.entries)
    (hcompleted : e.expires.isSome = true) : e.streaming = false := by
  obtain ⟨x, -, -, -, -, hfits⟩ := hs.owners e he
  unfold Fits at hfits
  split at hfits
  · exact hfits.1
  · exact hfits.2.1
  · simp [hfits.2] at hcompleted
  · simp [hfits.2] at hcompleted
  · exact hfits.elim

theorem Sound.exclusive (hs : s.Sound) (hheld : s.Held) : s.Exclusive ttl maxEntries where
  single key := by
    have hentry : ∀ r ∈ s.requests, r.phase.executing = true → ∃ e ∈ s.entries, e.id = r.id := by
      intro r hr hexecuting
      rcases (Bool.or_eq_true_iff).1 hexecuting with h | h
      · exact hs.calling r hr (isCalling_iff.1 h)
      · obtain ⟨e, he, hid, -⟩ := hheld r hr h
        exact ⟨e, he, hid⟩
    refine Table.length_le_one_of_nodup_map (hs.nodup.sublist (filter_sublist.map _))
      fun x hx y hy => ?_
    simp only [mem_filter, Bool.and_eq_true, decide_eq_true_eq] at hx hy
    obtain ⟨d, hd, hdid⟩ := hentry x hx.1 hx.2.2
    obtain ⟨e, he, heid⟩ := hentry y hy.1 hy.2.2
    -- both entries are stored under `key`
    have hdkey := (hs.owner hd hx.1 hdid).1.symm.trans hx.2.1
    have hekey := (hs.owner he hy.1 heid).1.symm.trans hy.2.1
    obtain rfl := hs.entry_eq hd he (hdkey.trans hekey.symm)
    exact hdid.symm.trans heid
  refuses r hr hstreaming print a ha s' hstep := by
    obtain ⟨e, he, hid, hstale⟩ := hheld r hr hstreaming
    obtain ⟨hestreaming, hexpires⟩ := hs.streaming_entry he hr hid hstreaming
    have hkey := (hs.owner he hr hid).1
    have hget : get r.key s.evict.entries = some e :=
      (get_eq_some hs.evict.keys).2 ⟨Sound.mem_evict he hexpires hstale, hkey.symm⟩
    simp only [mem_cons, not_mem_nil, or_false] at ha
    rcases ha with rfl | rfl
    · cases did_of_step hstep with
      | runRefused found why =>
        obtain rfl := some.inj (hget.symm.trans found)
        rcases why with ⟨-, rfl⟩ | ⟨-, -, rfl⟩
        · exact ⟨_, .inr rfl, rfl, rfl⟩
        · exact ⟨_, .inl rfl, rfl, rfl⟩
      | waited found call =>
        obtain rfl := some.inj (hget.symm.trans found)
        exact absurd (hestreaming.symm.trans call) nofun
      | invoked free => exact absurd (hget.symm.trans free) nofun
    · cases did_of_step hstep with
      | streamRefused => exact ⟨_, .inl rfl, rfl, rfl⟩
      | claimed free => exact absurd (hget.symm.trans free) nofun
      | unclaimed found completed =>
        obtain rfl := some.inj (hget.symm.trans found)
        simp [hexpires] at completed

namespace Held

theorem moved (hheld : s.Held) (r' : KeyedRequest) (hid : r'.id = r.id)
    (hphase : r'.phase.isStreaming = false) (hclock : s'.clock = s.clock)
    (hrequests : s'.requests = Table.put KeyedRequest.id r' s.requests)
    (hstay : ∀ e ∈ s.entries, e.id ≠ r.id → e ∈ s'.entries) : s'.Held := by
  intro x hx hstreaming
  rw [hrequests] at hx
  rcases Table.mem_put hx with rfl | ⟨hx, hne⟩
  · exact absurd (hstreaming.symm.trans hphase) nofun
  · obtain ⟨e, he, heid, hstale⟩ := hheld x hx hstreaming
    refine ⟨e, hstay e he (by rw [heid, ← hid]; exact hne), heid, ?_⟩
    rw [hclock]
    exact hstale

theorem evict (hs : s.Sound) (hheld : s.Held) : s.evict.Held := by
  intro r hr hstreaming
  obtain ⟨e, he, hid, hstale⟩ := hheld r hr hstreaming
  have hexpires := (hs.streaming_entry he hr hid hstreaming).2
  exact ⟨e, Sound.mem_evict he hexpires hstale, hid, hstale⟩

theorem arrive (hheld : s.Held) {phase : KeyedPhase} (hphase : phase.isStreaming = false) :
    (s.arrive key print phase).Held := by
  intro r hr hstreaming
  rcases mem_append.1 hr with hr | hr
  · exact hheld r hr hstreaming
  · rw [mem_singleton.1 hr] at hstreaming
    exact absurd (hstreaming.symm.trans hphase) nofun

theorem enter (hs : s.Sound) (hheld : s.Held) {streaming : Bool} {staleAfter : Option Time}
    {phase : KeyedPhase} (event : KeyedEvent) (hfree : get key s.entries = none)
    (hstale : ∀ u, staleAfter = some u → s.clock < u) :
    (((s.add maxEntries key print streaming staleAfter).note event).arrive key print
      phase).Held := by
  intro r hr hstreaming
  change ∃ e ∈ (s.add maxEntries key print streaming staleAfter).entries, e.id = r.id ∧ _
  rw [show (s.add maxEntries key print streaming staleAfter).entries = _ from add_of_free hfree]
  rcases mem_append.1 hr with hr | hr
  · obtain ⟨e, he, hid, hfresh⟩ := hheld r hr hstreaming
    have hexpires := (hs.streaming_entry he hr hid hstreaming).2
    have hkept := not_mem_completed hs.keys he hexpires
    exact ⟨e, mem_append_left _ (mem_makeRoom he hkept), hid, hfresh⟩
  · rw [mem_singleton.1 hr]
    exact ⟨_, mem_append_right _ (mem_singleton.2 rfl), rfl, hstale⟩

theorem did (hs : s.Sound) (hheld : s.Held) (hok : KeepsClaims ttl a s)
    (hdid : s.Did ttl maxEntries a s') : s'.Held := by
  cases hdid with
  | advanced =>
    intro r hr hstreaming
    obtain ⟨e, he, hid, -⟩ := hheld r hr hstreaming
    exact ⟨e, he, hid, hok r hr hstreaming e he hid⟩
  | runRefused | waited => exact (hheld.evict hs).arrive rfl
  | invoked free => exact (hheld.evict hs).enter hs.evict _ free nofun
  | @finished r outcome request =>
    refine hheld.moved { r with phase := .ended (.returned outcome), future := _ } rfl rfl rfl rfl
      fun e he hne => ?_
    cases hkept : outcome.kept with
    | true =>
      simp only [finish, setRequest, note, hkept, if_true]
      exact mem_map.2 ⟨e, he, if_neg hne⟩
    | false =>
      simp only [finish, setRequest, note, hkept]
      exact (mem_forget hs.keys).2 ⟨he, fun h => hne h.2⟩
  | woke | cancelled => exact hheld.moved _ rfl rfl rfl rfl fun e he _ => he
  | streamRefused => exact (hheld.evict hs).arrive rfl
  | @claimed key print free =>
    have httl : 0 < ttl := by
      simpa only [KeepsClaims, free] using hok
    refine (hheld.evict hs).enter hs.evict _ free fun u hu => ?_
    rw [← some.inj hu]
    exact lt_add_of_pos_right _ httl
  | @unclaimed key print entry found completed =>
    have hexpires : entry.expires = none := by
      simpa only [KeepsClaims, found] using hok
    simp [hexpires] at completed
  | @streamEnded r holds =>
    refine hheld.moved { r with phase := .ended .streamed } rfl rfl rfl rfl fun e he hne => ?_
    cases holds with
    | true => exact (mem_forget hs.keys).2 ⟨he, fun h => hne h.2⟩
    | false => exact he
  | abandoned => exact hheld.moved _ rfl rfl rfl rfl fun e he _ => he

end Held

theorem not_exclusive_of_stale (hs : s.Sound) (he : e ∈ s.entries) (hr : r ∈ s.requests)
    (hid : e.id = r.id) (hstreaming : r.phase.isStreaming = true) {u : Time}
    (hu : e.staleAfter = some u) (hstale : u ≤ s.clock) : ¬ s.Exclusive ttl maxEntries := by
  intro hexclusive
  have hkey := (hs.owner he hr hid).1
  have hnone : get r.key s.evict.entries = none := by
    refine get_eq_none.2 fun d hd hdkey => ?_
    obtain ⟨hd, hfresh⟩ := mem_filter.1 hd
    obtain rfl := hs.entry_eq hd he (hdkey.trans hkey)
    simp [fresh, hu, hstale] at hfresh
  obtain ⟨f, -, hrequests, -⟩ := hexclusive.refuses r hr hstreaming "" (.run r.key "") (by simp)
    (s.run maxEntries r.key "") rfl
  rw [run_of_free hnone] at hrequests
  simp [arrive, note, Keyed.add, Keyed.evict] at hrequests

theorem not_exclusive_of_completed (hr : r ∈ s.requests) (hstreaming : r.phase.isStreaming = true)
    (hget : get r.key s.evict.entries = some e) (hcall : e.streaming = false) :
    ¬ s.Exclusive ttl maxEntries := by
  intro hexclusive
  obtain ⟨f, -, hrequests, -⟩ := hexclusive.refuses r hr hstreaming e.fingerprint
    (.run r.key e.fingerprint) (by simp) (s.run maxEntries r.key e.fingerprint) rfl
  rw [run_of_call hget hcall] at hrequests
  simp [arrive, Keyed.evict] at hrequests

theorem not_exclusive_of_did (hs : s.Sound) (hok : ¬ KeepsClaims ttl a s)
    (hdid : s.Did ttl maxEntries a s') : ¬ s'.Exclusive ttl maxEntries := by
  have hs' := hs.did hdid
  cases hdid with
  | @advanced now =>
    simp only [KeepsClaims, not_forall, not_lt] at hok
    obtain ⟨r, hr, hstreaming, e, he, hid, u, hu, hle⟩ := hok
    exact not_exclusive_of_stale hs' he hr hid hstreaming hu hle
  | @claimed key print free =>
    have httl : ttl ≤ 0 := by
      simpa only [KeepsClaims, free, not_lt] using hok
    let new : KeyedEntry := ⟨s.requests.length, key, print, true, none, some (s.clock + ttl)⟩
    have hnew : new ∈ IdempotencyStore.add maxEntries new s.evict.entries := by
      rw [add_of_free free]
      exact mem_append_right _ (mem_singleton.2 rfl)
    have hlast : (⟨s.requests.length, key, print, .streaming true, none⟩ : KeyedRequest)
        ∈ s.requests ++ [⟨s.requests.length, key, print, .streaming true, none⟩] := by
      simp
    exact not_exclusive_of_stale hs' hnew hlast rfl rfl rfl (add_le_of_nonpos_right httl)
  | @unclaimed key print entry found completed =>
    have hcall := hs.evict.completed_entry (Table.get_mem found) completed
    have hevict : IdempotencyStore.evict s.clock s.evict.entries = s.evict.entries := by
      simp [Keyed.evict, IdempotencyStore.evict]
    have hlast : (⟨s.requests.length, key, print, .streaming false, none⟩ : KeyedRequest)
        ∈ s.requests ++ [⟨s.requests.length, key, print, .streaming false, none⟩] := by
      simp
    refine not_exclusive_of_completed hlast rfl ?_ hcall
    change get key (IdempotencyStore.evict s.clock s.evict.entries) = some entry
    rw [hevict, found]
  | @streamRefused key print entry found running =>
    exact absurd (by simpa only [KeepsClaims, found] using running) hok
  | runRefused | waited | invoked | finished | woke | cancelled | streamEnded | abandoned =>
    exact absurd trivial hok

/-- Streams are exclusive along exactly the runs in which each keeps its claim. -/
theorem exclusive_iff_keepsClaims (ttl : ℚ) (maxEntries : ℕ) (actions : List KeyedAction) :
    (keyedRequests ttl maxEntries).Along (Exclusive ttl maxEntries) actions empty
      ↔ (keyedRequests ttl maxEntries).Meets (KeepsClaims ttl) actions empty := by
  have hexclusive : ∀ s : Keyed, s.Sound ∧ s.Held → s.Exclusive ttl maxEntries :=
    fun _ h => h.1.exclusive h.2
  refine Machine.along_iff_meets_of hexclusive (fun a s s' h hok hstep => ?_)
    (fun a s s' h hok hstep => not_exclusive_of_did h.1 hok (did_of_step hstep)) actions
    ⟨.empty, fun _ hr => absurd hr not_mem_nil⟩
  exact ⟨h.1.did (did_of_step hstep), h.2.did h.1 hok (did_of_step hstep)⟩

/-- A stream that runs for `ttl` seconds, and a stream that begins after a completed call: both
times a second request with the key is executed next to it. -/
theorem shared_key : let key : RequestKey := ("run", "r", "k")
    (¬ (keyedRequests 3600 2000).Along (Exclusive 3600 2000)
      [.stream key "a", .advance 3600, .run key "a"] empty)
    ∧ ¬ (keyedRequests 3600 2000).Along (Exclusive 3600 2000)
      [.run key "a", .finish 0 (.result .null), .stream key "a", .stream key "a"] empty := by
  have hsingle : ∀ s : Keyed, s.Exclusive 3600 2000 → (s.requests.filter fun r =>
      r.key = ("run", "r", "k") && r.phase.executing).length ≤ 1 := fun _ h => h.single _
  refine ⟨fun h => absurd (h.mono hsingle) ?_, fun h => absurd (h.mono hsingle) ?_⟩ <;>
    decide +kernel

end Keyed

end Crewquarters
