import Crewquarters.Lib.History
import Crewquarters.Proofs.Keyed

/-!
# Calls are executed once and replayed

A request with a key either calls, and then its entry is in the map until the call has ended, or
follows the request whose entry it found. A follower ends with what its leader ended with.
-/

namespace Crewquarters

def KeyedEvent.silent : KeyedEvent → Bool
  | invoked .. | ended .. => false
  | streamed .. | dropped .. => true

def KeyedRequest.Leads (r : KeyedRequest) : Prop :=
  r.phase = .calling ∨ ∃ outcome, r.phase = .ended (.returned outcome)

namespace Keyed

open IdempotencyStore List Option

variable {ttl : ℚ} {maxEntries : ℕ} {s s' : Keyed} {a : KeyedAction}
variable {r r' : KeyedRequest} {e : KeyedEntry}

/-- What a step makes of a request. -/
inductive Goes (s : Keyed) (r : KeyedRequest) : KeyedAction → KeyedRequest → Prop where
  | stays {a : KeyedAction} : Goes s r a r
  | returned {outcome} (calling : r.phase = .calling) :
      Goes s r (.finish r.id outcome)
        { r with phase := .ended (.returned outcome), future := some outcome.settled }
  | replayed {leader answer} (waiting : r.phase = .waiting leader.id) (mem : leader ∈ s.requests)
      (settled : leader.future = some answer) :
      Goes s r (.wake r.id) { r with phase := .ended (.replayed leader.id answer) }
  | cancelled {leader} (waiting : r.phase = .waiting leader) :
      Goes s r (.cancel r.id) { r with phase := .ended .cancelled }
  | streamed {a holds how} (streaming : r.phase = .streaming holds)
      (stop : how = .streamed ∨ how = .abandoned) : Goes s r a { r with phase := .ended how }

/-- The request that a step adds. -/
inductive Arrives (s : Keyed) : KeyedRequest → Prop where
  | refused {key print e} : Arrives s ⟨s.requests.length, key, print, .ended (.refused e), none⟩
  | waits {e : KeyedEntry} (mem : e ∈ s.entries) (call : e.streaming = false) :
      Arrives s ⟨s.requests.length, e.key, e.fingerprint, .waiting e.id, none⟩
  | calls {key print} : Arrives s ⟨s.requests.length, key, print, .calling, none⟩
  | streams {key print holds} : Arrives s ⟨s.requests.length, key, print, .streaming holds, none⟩

/-- The requests after a step are those before it, gone on, and one that arrives. -/
structure Requests (s : Keyed) (a : KeyedAction) (s' : Keyed) : Prop where
  on : ∀ r ∈ s.requests, ∃ r' ∈ s'.requests, Goes s r a r'
  back : ∀ r' ∈ s'.requests, (∃ r ∈ s.requests, Goes s r a r') ∨ Arrives s r'

theorem Requests.same (h : s'.requests = s.requests) : Requests s a s' where
  on r hr := ⟨r, h ▸ hr, .stays⟩
  back r hr := .inl ⟨r, h ▸ hr, .stays⟩

theorem Requests.arrive {new : KeyedRequest} (hnew : Arrives s new)
    (h : s'.requests = s.requests ++ [new]) : Requests s a s' where
  on r hr := ⟨r, by rw [h]; exact mem_append_left _ hr, .stays⟩
  back r hr := by
    rw [h] at hr
    rcases mem_append.1 hr with hr | hr
    · exact .inl ⟨r, hr, .stays⟩
    · rw [mem_singleton.1 hr]
      exact .inr hnew

theorem Requests.move (hs : s.Sound) (hr : r ∈ s.requests) (hgoes : Goes s r a r')
    (hid : r'.id = r.id) (h : s'.requests = Table.put KeyedRequest.id r' s.requests) :
    Requests s a s' where
  on x hx := by
    rw [h]
    by_cases hxr : x.id = r.id
    · obtain rfl := hs.eq_of_id hx hr hxr
      exact ⟨r', Table.mem_put_self hx hid.symm, hgoes⟩
    · exact ⟨x, Table.mem_put_of_mem hx (by rw [hid]; exact hxr), .stays⟩
  back x hx := by
    rw [h] at hx
    rcases Table.mem_put hx with rfl | ⟨hx, -⟩
    · exact .inl ⟨r, hr, hgoes⟩
    · exact .inl ⟨x, hx, .stays⟩

theorem Requests.of_did (hs : s.Sound) (hdid : s.Did ttl maxEntries a s') : Requests s a s' := by
  cases hdid with
  | advanced => exact .same rfl
  | runRefused => exact .arrive .refused rfl
  | @waited key entry found call =>
    obtain rfl : entry.key = key := Table.get_key found
    exact .arrive (.waits (mem_filter.1 (Table.get_mem found)).1 call) rfl
  | invoked => exact .arrive .calls rfl
  | finished request calling => exact .move hs (Table.get_mem request) (.returned calling) rfl rfl
  | woke request waiting lead settled =>
    exact .move hs (Table.get_mem request) (.replayed waiting (Table.get_mem lead) settled) rfl rfl
  | cancelled request waiting =>
    exact .move hs (Table.get_mem request) (.cancelled waiting) rfl rfl
  | streamRefused => exact .arrive .refused rfl
  | claimed | unclaimed => exact .arrive .streams rfl
  | streamEnded request streaming =>
    exact .move hs (Table.get_mem request) (.streamed streaming (.inl rfl)) rfl rfl
  | abandoned request streaming =>
    exact .move hs (Table.get_mem request) (.streamed streaming (.inr rfl)) rfl rfl

/-- What a step adds to the log. -/
inductive Writes (ttl : ℚ) (s s' : Keyed) : List KeyedEvent → Prop where
  | quiet {new} (silent : ∀ x ∈ new, x.silent = true) : Writes ttl s s' new
  | invoked {key print new} (silent : ∀ x ∈ new, x.silent = true)
      (free : get key s.evict.entries = none)
      (arrived : ⟨s.requests.length, key, print, .calling, none⟩ ∈ s'.requests) :
      Writes ttl s s' (.invoked s.requests.length key s.clock :: new)
  | ended {r : KeyedRequest} {outcome : CallOutcome}
      (stored : outcome.kept = true → ∃ e ∈ s'.entries, e.id = r.id ∧ e.key = r.key
        ∧ e.expires = some (s.clock + ttl)) :
      Writes ttl s s' [.ended r.id r.key outcome s.clock]

/-- What a step adds to the log; and a completed entry stays, or it expires or is dropped. -/
structure Logs (ttl : ℚ) (s s' : Keyed) : Prop where
  clock : s.clock ≤ s'.clock
  entries : ∃ new, s'.log = new ++ s.log ∧ Writes ttl s s' new
    ∧ ∀ e ∈ s.entries, ∀ u, e.expires = some u →
      e ∈ s'.entries ∨ u ≤ s.clock ∨ .dropped e.id e.key ∈ new

theorem drops_silent (entries : List KeyedEntry) :
    ∀ x ∈ drops maxEntries entries, x.silent = true := by
  intro x hx
  obtain ⟨e, -, rfl⟩ := mem_map.1 hx
  rfl

theorem mem_evict_or_expired (hs : s.Sound) (he : e ∈ s.entries) {u : Time}
    (hu : e.expires = some u) : e ∈ s.evict.entries ∨ u ≤ s.clock := by
  by_cases hle : u ≤ s.clock
  · exact .inr hle
  · have hstale : e.staleAfter = none := by
      obtain ⟨x, -, -, -, -, hfits⟩ := hs.owners e he
      unfold Fits at hfits
      split at hfits
      · exact hfits.2.2
      · exact hfits.2.2.2
      · simp [hfits.2] at hu
      · simp [hfits.2] at hu
      · exact hfits.elim
    exact .inl (mem_filter.2 ⟨he, by simp [fresh, hu, hstale, hle]⟩)

theorem mem_add_or_dropped {d : KeyedEntry} {entries : List KeyedEntry}
    (hn : (entries.map KeyedEntry.key).Nodup) (hfree : get d.key entries = none)
    (he : e ∈ entries) :
    e ∈ IdempotencyStore.add maxEntries d entries
      ∨ .dropped e.id e.key ∈ drops maxEntries entries := by
  rw [add_of_free hfree]
  cases hget : get e.key (makeRoom (max 1 maxEntries) (completed entries) entries) with
  | none =>
    right
    exact mem_map.2 ⟨e, mem_filter.2 ⟨he, by simp [hget]⟩, rfl⟩
  | some =>
    -- the entry found under the key can only be `e`
    have hc := (makeRoom_sublist _ _).subset (Table.get_mem hget)
    obtain rfl := inj_on_of_nodup_map hn hc he (Table.get_key hget)
    exact .inl (mem_append_left _ (Table.get_mem hget))

theorem Sound.completed_ne (hs : s.Sound) (he : e ∈ s.entries) (hr : r ∈ s.requests) {u : Time}
    (hu : e.expires = some u) (hphase : r.phase.executing = true) : e.id ≠ r.id := by
  intro hid
  rcases Bool.or_eq_true_iff.1 hphase with h | h
  · obtain ⟨-, -, hfits⟩ := hs.owner he hr hid
    rw [isCalling_iff.1 h] at hfits
    exact absurd (hfits.2.1.symm.trans hu) nofun
  · exact absurd ((hs.streaming_entry he hr hid h).2.symm.trans hu) nofun

theorem Logs.quiet (hclock : s.clock ≤ s'.clock) (hlog : s'.log = s.log)
    (hstay : ∀ e ∈ s.entries, ∀ u, e.expires = some u → e ∈ s'.entries ∨ u ≤ s.clock) :
    Logs ttl s s' where
  clock := hclock
  entries := by
    refine ⟨[], hlog, .quiet (by simp), fun e he u hu => ?_⟩
    exact (hstay e he u hu).imp_right .inl

theorem Logs.of_did (hs : s.Sound) (hdid : s.Did ttl maxEntries a s') : Logs ttl s s' := by
  cases hdid with
  | advanced later => exact .quiet later rfl fun e he _ _ => .inl he
  | runRefused | waited => exact .quiet le_rfl rfl fun e he u hu => mem_evict_or_expired hs he hu
  | @invoked key print free =>
    have harrived : (⟨s.requests.length, key, print, .calling, none⟩ : KeyedRequest)
        ∈ s.requests ++ [⟨s.requests.length, key, print, .calling, none⟩] := by
      simp
    refine ⟨le_rfl, _, rfl, .invoked (drops_silent _) free harrived, fun e he u hu => ?_⟩
    rcases mem_evict_or_expired hs he hu with he | hle
    · refine (mem_add_or_dropped hs.evict.keys free he).imp id fun h => .inr ?_
      exact mem_cons_of_mem _ h
    · exact .inr (.inl hle)
  | @finished r outcome request calling =>
    have hr := Table.get_mem request
    have hne : ∀ e ∈ s.entries, ∀ u, e.expires = some u → e.id ≠ r.id := fun e he u hu =>
      hs.completed_ne he hr hu (by rw [calling]; rfl)
    refine ⟨le_rfl, [.ended r.id r.key outcome s.clock], rfl, .ended fun hkept => ?_,
      fun e he u hu => .inl ?_⟩
    · obtain ⟨e, he, hid⟩ := hs.calling r hr calling
      have hkey := (hs.owner he hr hid).1
      refine ⟨{ e with expires := some (s.clock + ttl) }, ?_, hid, hkey.symm, rfl⟩
      simp only [finish, setRequest, note, hkept, if_true]
      exact mem_map.2 ⟨e, he, if_pos hid⟩
    · cases hkept : outcome.kept with
      | true =>
        simp only [finish, setRequest, note, hkept, if_true]
        exact mem_map.2 ⟨e, he, if_neg (hne e he u hu)⟩
      | false =>
        simp only [finish, setRequest, note, hkept]
        exact (mem_forget hs.keys).2 ⟨he, fun h => hne e he u hu h.2⟩
  | woke | cancelled => exact .quiet le_rfl rfl fun e he _ _ => .inl he
  | streamRefused => exact .quiet le_rfl rfl fun e he u hu => mem_evict_or_expired hs he hu
  | @claimed key print free =>
    refine ⟨le_rfl, .streamed s.requests.length key s.clock :: drops maxEntries s.evict.entries,
      rfl, .quiet fun x hx => ?_, fun e he u hu => ?_⟩
    · rcases mem_cons.1 hx with rfl | hx
      · rfl
      · exact drops_silent _ x hx
    · rcases mem_evict_or_expired hs he hu with he | hle
      · refine (mem_add_or_dropped hs.evict.keys free he).imp id fun h => .inr ?_
        exact mem_cons_of_mem _ h
      · exact .inr (.inl hle)
  | @unclaimed key print entry found completed =>
    refine ⟨le_rfl, [.streamed s.requests.length key s.clock], rfl,
      .quiet (by simp [KeyedEvent.silent]), fun e he u hu => ?_⟩
    exact (mem_evict_or_expired hs he hu).imp_right .inl
  | @streamEnded r holds request streaming =>
    refine .quiet le_rfl rfl fun e he u hu => .inl ?_
    have hne : e.id ≠ r.id :=
      hs.completed_ne he (Table.get_mem request) hu (by rw [streaming]; rfl)
    cases holds with
    | true => exact (mem_forget hs.keys).2 ⟨he, fun h => hne h.2⟩
    | false => exact he
  | abandoned => exact .quiet le_rfl rfl fun e he _ _ => .inl he

/-- Whoever waits has a leader with its key and body, and gets that one's answer. -/
structure Followed (s : Keyed) : Prop where
  futures : ∀ r ∈ s.requests, ∀ outcome, r.phase = .ended (.returned outcome) →
    r.future = some outcome.settled
  settled : ∀ r ∈ s.requests, ∀ answer, r.future = some answer →
    ∃ outcome, r.phase = .ended (.returned outcome)
  waiting : ∀ r ∈ s.requests, ∀ leader, r.phase = .waiting leader →
    ∃ l ∈ s.requests, l.id = leader ∧ l.key = r.key ∧ l.print = r.print ∧ l.Leads
  answered : ∀ r ∈ s.requests, ∀ leader answer, r.phase = .ended (.replayed leader answer) →
    ∃ l ∈ s.requests, l.id = leader ∧ l.key = r.key ∧ l.print = r.print
      ∧ ∃ outcome, l.phase = .ended (.returned outcome) ∧ answer = outcome.settled
  invoked : ∀ id key time, .invoked id key time ∈ s.log → ∃ r ∈ s.requests, r.id = id ∧ r.Leads

theorem Goes.identity (h : Goes s r a r') : r'.id = r.id ∧ r'.key = r.key ∧ r'.print = r.print := by
  cases h <;> exact ⟨rfl, rfl, rfl⟩

theorem Goes.leads (h : Goes s r a r') (hr : r.Leads) : r'.Leads := by
  cases h with
  | stays => exact hr
  | returned => exact .inr ⟨_, rfl⟩
  | replayed waiting | cancelled waiting =>
    rcases hr with hr | ⟨outcome, hr⟩ <;> exact absurd (waiting.symm.trans hr) nofun
  | streamed streaming =>
    rcases hr with hr | ⟨outcome, hr⟩ <;> exact absurd (streaming.symm.trans hr) nofun

theorem Goes.returned_same (h : Goes s r a r') {outcome : CallOutcome}
    (hr : r.phase = .ended (.returned outcome)) : r' = r := by
  cases h with
  | stays => rfl
  | returned calling => exact absurd (calling.symm.trans hr) nofun
  | replayed waiting | cancelled waiting => exact absurd (waiting.symm.trans hr) nofun
  | streamed streaming => exact absurd (streaming.symm.trans hr) nofun

theorem Requests.leader (h : Requests s a s') {leader : ℕ}
    (hl : ∃ l ∈ s.requests, l.id = leader ∧ l.key = r.key ∧ l.print = r.print ∧ l.Leads) :
    ∃ l ∈ s'.requests, l.id = leader ∧ l.key = r.key ∧ l.print = r.print ∧ l.Leads := by
  obtain ⟨l, hl, hid, hkey, hprint, hleads⟩ := hl
  obtain ⟨l', hl', hgoes⟩ := h.on l hl
  obtain ⟨hid', hkey', hprint'⟩ := hgoes.identity
  exact ⟨l', hl', hid'.trans hid, hkey'.trans hkey, hprint'.trans hprint, hgoes.leads hleads⟩

theorem Requests.returned_leader (h : Requests s a s') {leader : ℕ}
    {answer : Except PlatformError Json}
    (hl : ∃ l ∈ s.requests, l.id = leader ∧ l.key = r.key ∧ l.print = r.print
      ∧ ∃ outcome, l.phase = .ended (.returned outcome) ∧ answer = outcome.settled) :
    ∃ l ∈ s'.requests, l.id = leader ∧ l.key = r.key ∧ l.print = r.print
      ∧ ∃ outcome, l.phase = .ended (.returned outcome) ∧ answer = outcome.settled := by
  obtain ⟨l, hl, hid, hkey, hprint, outcome, hphase, hanswer⟩ := hl
  obtain ⟨l', hl', hgoes⟩ := h.on l hl
  obtain rfl := hgoes.returned_same hphase
  exact ⟨l', hl', hid, hkey, hprint, outcome, hphase, hanswer⟩

theorem Sound.entry_leads (hs : s.Sound) (he : e ∈ s.entries) (hcall : e.streaming = false) :
    ∃ l ∈ s.requests, l.id = e.id ∧ l.key = e.key ∧ l.print = e.fingerprint ∧ l.Leads := by
  obtain ⟨l, hl, hid, hkey, hprint, hfits⟩ := hs.owners e he
  refine ⟨l, hl, hid, hkey, hprint, ?_⟩
  unfold Fits at hfits
  split at hfits
  · rename_i hphase
    exact .inl hphase
  · rename_i outcome hphase
    exact .inr ⟨outcome, hphase⟩
  · exact absurd (hfits.1.symm.trans hcall) nofun
  · exact absurd (hfits.1.symm.trans hcall) nofun
  · exact hfits.elim

theorem Followed.step (hs : s.Sound) (h : s.Followed) (hreq : Requests s a s')
    (hlogs : Logs ttl s s') : s'.Followed where
  futures r' hr' outcome hphase := by
    rcases hreq.back r' hr' with ⟨r, hr, hgoes⟩ | harrives
    · cases hgoes with
      | stays => exact h.futures r' hr outcome hphase
      | returned =>
        simp only [KeyedPhase.ended.injEq, KeyedEnd.returned.injEq] at hphase
        rw [hphase]
      | replayed | cancelled => exact absurd hphase nofun
      | streamed _ stop => rcases stop with rfl | rfl <;> exact absurd hphase nofun
    · cases harrives <;> exact absurd hphase nofun
  settled r' hr' answer hfuture := by
    rcases hreq.back r' hr' with ⟨r, hr, hgoes⟩ | harrives
    · -- before the step the future was set only if the call had ended
      cases hgoes with
      | stays => exact h.settled r' hr answer hfuture
      | returned => exact ⟨_, rfl⟩
      | replayed waiting | cancelled waiting =>
        obtain ⟨outcome, hphase⟩ := h.settled r hr answer hfuture
        exact absurd (waiting.symm.trans hphase) nofun
      | streamed streaming =>
        obtain ⟨outcome, hphase⟩ := h.settled r hr answer hfuture
        exact absurd (streaming.symm.trans hphase) nofun
    · cases harrives <;> exact absurd hfuture nofun
  waiting r' hr' leader hphase := by
    rcases hreq.back r' hr' with ⟨r, hr, hgoes⟩ | harrives
    · cases hgoes with
      | stays => exact hreq.leader (h.waiting r' hr leader hphase)
      | returned | replayed | cancelled | streamed => exact absurd hphase nofun
    · cases harrives with
      | waits mem call =>
        obtain rfl := KeyedPhase.waiting.inj hphase
        exact hreq.leader (hs.entry_leads mem call)
      | refused | calls | streams => exact absurd hphase nofun
  answered r' hr' leader answer hphase := by
    rcases hreq.back r' hr' with ⟨r, hr, hgoes⟩ | harrives
    · cases hgoes with
      | stays => exact hreq.returned_leader (h.answered r' hr leader answer hphase)
      | @replayed l answer' waiting mem settled =>
        simp only [KeyedPhase.ended.injEq, KeyedEnd.replayed.injEq] at hphase
        obtain ⟨rfl, rfl⟩ := hphase
        obtain ⟨l', hl', hid, hkey, hprint, -⟩ := h.waiting r hr l.id waiting
        obtain rfl := hs.eq_of_id hl' mem hid
        obtain ⟨outcome, hphase⟩ := h.settled l' mem answer' settled
        have hanswer := some.inj (settled.symm.trans (h.futures l' mem outcome hphase))
        exact hreq.returned_leader ⟨l', mem, rfl, hkey, hprint, outcome, hphase, hanswer⟩
      | returned | cancelled => exact absurd hphase nofun
      | streamed _ stop => rcases stop with rfl | rfl <;> exact absurd hphase nofun
    · cases harrives <;> exact absurd hphase nofun
  invoked id key time hmem := by
    obtain ⟨new, hlog, hwrites, -⟩ := hlogs.entries
    rw [hlog] at hmem
    have hold : .invoked id key time ∈ s.log → ∃ r ∈ s'.requests, r.id = id ∧ r.Leads := by
      intro hmem
      obtain ⟨r, hr, hid, hleads⟩ := h.invoked id key time hmem
      obtain ⟨r', hr', hgoes⟩ := hreq.on r hr
      exact ⟨r', hr', hgoes.identity.1.trans hid, hgoes.leads hleads⟩
    rcases mem_append.1 hmem with hnew | hmem
    · cases hwrites with
      | quiet silent => exact absurd (silent _ hnew) nofun
      | invoked silent _ arrived =>
        rcases mem_cons.1 hnew with heq | hnew
        · simp only [KeyedEvent.invoked.injEq] at heq
          exact ⟨_, arrived, heq.1.symm, .inl rfl⟩
        · exact absurd (silent _ hnew) nofun
      | ended => simp at hnew
    · exact hold hmem

/-- A kept outcome is not forgotten before its time. -/
structure Remembered (ttl : ℚ) (s : Keyed) : Prop where
  /-- the entry of a kept outcome is stored, or its time is over, or it made room for another -/
  stored : ∀ id key outcome time later, Since (.ended id key outcome time) later s.log →
    outcome.kept = true → (∃ e ∈ s.entries, e.id = id ∧ e.key = key
      ∧ e.expires = some (time + ttl)) ∨ time + ttl ≤ s.clock ∨ .dropped id key ∈ later
  replay : ∀ id key outcome time later, Since (.ended id key outcome time) later s.log →
    outcome.kept = true → ∀ id' time' before after,
      later = after ++ .invoked id' key time' :: before →
        time + ttl ≤ time' ∨ .dropped id key ∈ before

theorem split_silent {new l after before : List KeyedEvent} {x : KeyedEvent}
    (hsilent : ∀ y ∈ new, y.silent = true) (hx : x.silent = false)
    (h : new ++ l = after ++ x :: before) : ∃ l', l = l' ++ x :: before := by
  have hsince : Since x after (new ++ l) := ⟨before, h⟩
  have hnew : x ∉ new := fun hmem => absurd ((hsilent x hmem).symm.trans hx) nofun
  obtain ⟨l', rfl, -⟩ := hsince.of_append hnew
  rw [append_assoc] at h
  exact ⟨l', append_cancel_left h⟩

/-- An outcome is dropped only once it is expired or evicted. -/
theorem Remembered.step (hs : s.Sound) (h : s.Remembered ttl) (hlogs : Logs ttl s s') :
    s'.Remembered ttl := by
  obtain ⟨hclock, new, hlog, hwrites, hstay⟩ := hlogs
  -- an outcome of the past is stored as before, unless the step itself dropped it
  have hpast : ∀ id key outcome time l, Since (.ended id key outcome time) l s.log →
      outcome.kept = true → (∃ e ∈ s'.entries, e.id = id ∧ e.key = key
        ∧ e.expires = some (time + ttl)) ∨ time + ttl ≤ s'.clock ∨ .dropped id key ∈ new ++ l := by
    intro id key outcome time l hsince hkept
    rcases h.stored id key outcome time l hsince hkept with ⟨e, he, rfl, rfl, hu⟩ | hle | hmem
    · rcases hstay e he _ hu with he | hle | hmem
      · exact .inl ⟨e, he, rfl, rfl, hu⟩
      · exact .inr (.inl (hle.trans hclock))
      · exact .inr (.inr (mem_append_left _ hmem))
    · exact .inr (.inl (hle.trans hclock))
    · exact .inr (.inr (mem_append_right _ hmem))
  cases hwrites with
  | quiet silent =>
    have hback : ∀ {id key outcome time later}, Since (.ended id key outcome time) later s'.log →
        ∃ l, later = new ++ l ∧ Since (.ended id key outcome time) l s.log := by
      intro id key outcome time later hsince
      rw [hlog] at hsince
      exact hsince.of_append fun hmem => absurd (silent _ hmem) nofun
    refine ⟨fun id key outcome time later hsince hkept => ?_,
      fun id key outcome time later hsince hkept id' time' before after hsplit => ?_⟩
    · obtain ⟨l, rfl, hl⟩ := hback hsince
      exact hpast id key outcome time l hl hkept
    · obtain ⟨l, rfl, hl⟩ := hback hsince
      obtain ⟨l', hl'⟩ := split_silent silent rfl hsplit
      exact h.replay id key outcome time l hl hkept id' time' before l' hl'
  | @invoked key₀ print new silent free arrived =>
    have hback : ∀ {id key outcome time later}, Since (.ended id key outcome time) later s'.log →
        ∃ l, later = .invoked s.requests.length key₀ s.clock :: (new ++ l)
          ∧ Since (.ended id key outcome time) l s.log := by
      intro id key outcome time later hsince
      rw [hlog, cons_append] at hsince
      rcases since_cons.1 hsince with ⟨-, heq⟩ | ⟨l, rfl, hl⟩
      · exact absurd heq nofun
      · have hnew : KeyedEvent.ended id key outcome time ∉ new := fun hmem =>
          absurd (silent _ hmem) nofun
        obtain ⟨l', rfl, hl'⟩ := hl.of_append hnew
        exact ⟨l', rfl, hl'⟩
    refine ⟨fun id key outcome time later hsince hkept => ?_,
      fun id key outcome time later hsince hkept id' time' before after hsplit => ?_⟩
    · obtain ⟨l, rfl, hl⟩ := hback hsince
      exact hpast id key outcome time l hl hkept
    · obtain ⟨l, rfl, hl⟩ := hback hsince
      cases after with
      | nil =>
        -- the call invoked now found no entry under the key
        simp only [nil_append, cons.injEq, KeyedEvent.invoked.injEq] at hsplit
        obtain ⟨⟨-, rfl, rfl⟩, rfl⟩ := hsplit
        rcases h.stored id key₀ outcome time l hl hkept with ⟨e, he, -, hkey, hu⟩ | hle | hmem
        · rcases mem_evict_or_expired hs he hu with he | hle
          · exact absurd hkey (get_eq_none.1 free e he)
          · exact .inl hle
        · exact .inl hle
        · exact .inr (mem_append_right _ hmem)
      | cons =>
        obtain ⟨-, hsplit⟩ := cons.inj hsplit
        obtain ⟨l', hl'⟩ := split_silent silent rfl hsplit
        exact h.replay id key outcome time l hl hkept id' time' before l' hl'
  | @ended r outcome₀ stored =>
    refine ⟨fun id key outcome time later hsince hkept => ?_,
      fun id key outcome time later hsince hkept id' time' before after hsplit => ?_⟩
    · rw [hlog] at hsince
      rcases since_cons.1 hsince with ⟨rfl, heq⟩ | ⟨l, rfl, hl⟩
      · simp only [KeyedEvent.ended.injEq] at heq
        obtain ⟨rfl, rfl, rfl, rfl⟩ := heq
        exact .inl (stored hkept)
      · exact hpast id key outcome time l hl hkept
    · rw [hlog] at hsince
      rcases since_cons.1 hsince with ⟨rfl, -⟩ | ⟨l, rfl, hl⟩
      · exact absurd hsplit (by simp)
      · cases after with
        | nil => exact absurd hsplit (by simp)
        | cons x after =>
          obtain ⟨-, hsplit⟩ := cons.inj hsplit
          exact h.replay id key outcome time l hl hkept id' time' before after hsplit

/-- What a client of the store can rely on. -/
structure Once (ttl : ℚ) (maxEntries : ℕ) (s : Keyed) : Prop where
  /-- one call a key is in progress at most, and its entry is in the map -/
  single : ∀ key, (s.requests.filter fun r => r.key = key && r.phase.isCalling).length ≤ 1
  running : ∀ r ∈ s.requests, r.phase = .calling →
    ∃ e ∈ s.entries, e.id = r.id ∧ e.key = r.key ∧ e.expires = none
  /-- a duplicate that arrives while a call is in progress waits for it and calls nothing -/
  follows : ∀ r ∈ s.requests, r.phase = .calling →
    ∀ s', (keyedRequests ttl maxEntries).step (.run r.key r.print) s = some s' →
      s'.requests = s.requests
        ++ [⟨s.requests.length, r.key, r.print, .waiting r.id, none⟩] ∧ s'.log = s.log
  /-- who waits goes on waiting, is cancelled, or gets an answer -/
  waits : ∀ r ∈ s.requests, ∀ leader, r.phase = .waiting leader →
    ∀ a s', (keyedRequests ttl maxEntries).step a s = some s' → ∃ r' ∈ s'.requests, r'.id = r.id
      ∧ (r'.phase = .waiting leader ∨ (a = .cancel r.id ∧ r'.phase = .ended .cancelled)
        ∨ ∃ answer, r'.phase = .ended (.replayed leader answer))
  /-- and it does get the answer once the call has ended -/
  woken : ∀ r ∈ s.requests, ∀ leader, r.phase = .waiting leader → ∃ l ∈ s.requests,
    l.id = leader ∧ l.key = r.key ∧ l.print = r.print ∧ (l.phase = .calling
      ∨ ∃ outcome, l.phase = .ended (.returned outcome)
        ∧ (keyedRequests ttl maxEntries).step (.wake r.id) s
          = some (s.setRequest { r with phase := .ended (.replayed leader outcome.settled) }))
  /-- which is the result, an equal error or `MODEL_UNAVAILABLE` -/
  answers : ∀ r ∈ s.requests, ∀ leader answer, r.phase = .ended (.replayed leader answer) →
    ∃ l ∈ s.requests, l.id = leader ∧ l.key = r.key ∧ l.print = r.print
      ∧ ∃ outcome, l.phase = .ended (.returned outcome) ∧ answer = outcome.settled
  /-- only a request that calls, or whose call has ended, invoked its call -/
  invokers : ∀ id key time, .invoked id key time ∈ s.log → ∃ r ∈ s.requests, r.id = id ∧ r.Leads
  /-- no call is invoked while the outcome of an earlier one is kept -/
  replays : ∀ id key outcome time later, Since (.ended id key outcome time) later s.log →
    outcome.kept = true → ∀ id' time' before after,
      later = after ++ .invoked id' key time' :: before →
        time + ttl ≤ time' ∨ .dropped id key ∈ before
  /-- after any other outcome the key is free -/
  frees : ∀ r ∈ s.requests, ∀ outcome, outcome.kept = false →
    ∀ s', (keyedRequests ttl maxEntries).step (.finish r.id outcome) s = some s' →
      ∀ e ∈ s'.entries, e.key ≠ r.key
  /-- another body under a stored key is refused and calls nothing -/
  mismatches : ∀ e ∈ s.evict.entries, ∀ print, e.fingerprint ≠ print →
    ∀ s', (keyedRequests ttl maxEntries).step (.run e.key print) s = some s' →
      s'.requests = s.requests
        ++ [⟨s.requests.length, e.key, print, .ended (.refused usedForOther), none⟩]
      ∧ s'.log = s.log

theorem Sound.get_calling (hs : s.Sound) (hr : r ∈ s.requests) (hcalling : r.phase = .calling) :
    ∃ e, get r.key s.evict.entries = some e ∧ e.id = r.id
      ∧ e.fingerprint = r.print ∧ e.streaming = false ∧ e.expires = none := by
  obtain ⟨e, he, hid⟩ := hs.evict.calling r hr hcalling
  obtain ⟨hkey, hprint, hfits⟩ := hs.evict.owner he hr hid
  rw [hcalling] at hfits
  exact ⟨e, (get_eq_some hs.evict.keys).2 ⟨he, hkey.symm⟩, hid, hprint.symm, hfits.1, hfits.2.1⟩

theorem Sound.single_calling (hs : s.Sound) (key : RequestKey) :
    (s.requests.filter fun r => r.key = key && r.phase.isCalling).length ≤ 1 := by
  refine Table.length_le_one_of_nodup_map (hs.nodup.sublist (filter_sublist.map _))
    fun x hx y hy => ?_
  simp only [mem_filter, Bool.and_eq_true, decide_eq_true_eq] at hx hy
  obtain ⟨d, hd, hdid, -⟩ := hs.get_calling hx.1 (isCalling_iff.1 hx.2.2)
  obtain ⟨e, he, heid, -⟩ := hs.get_calling hy.1 (isCalling_iff.1 hy.2.2)
  rw [hx.2.1] at hd
  rw [hy.2.1] at he
  obtain rfl := some.inj (hd.symm.trans he)
  exact hdid.symm.trans heid

theorem Followed.wake (hs : s.Sound) (h : s.Followed) (hr : r ∈ s.requests) {leader : ℕ}
    (hwaiting : r.phase = .waiting leader) : ∃ l ∈ s.requests,
    l.id = leader ∧ l.key = r.key ∧ l.print = r.print ∧ (l.phase = .calling
      ∨ ∃ outcome, l.phase = .ended (.returned outcome)
        ∧ (keyedRequests ttl maxEntries).step (.wake r.id) s
          = some (s.setRequest { r with phase := .ended (.replayed leader outcome.settled) })) := by
  obtain ⟨l, hl, rfl, hkey, hprint, hleads⟩ := h.waiting r hr leader hwaiting
  refine ⟨l, hl, rfl, hkey, hprint, hleads.imp_right fun ⟨outcome, hphase⟩ => ⟨outcome, hphase, ?_⟩⟩
  have hfuture := h.futures l hl outcome hphase
  simp [keyedRequests, Keyed.step, hs.getRequest hr, hwaiting, hs.getRequest hl, hfuture]

theorem Goes.waits (h : Goes s r a r') {leader : ℕ} (hwaiting : r.phase = .waiting leader) :
    r'.phase = .waiting leader
      ∨ (a = .cancel r.id ∧ r'.phase = .ended .cancelled)
      ∨ ∃ answer, r'.phase = .ended (.replayed leader answer) := by
  cases h with
  | stays => exact .inl hwaiting
  | returned calling => exact absurd (calling.symm.trans hwaiting) nofun
  | replayed waiting =>
    obtain rfl := KeyedPhase.waiting.inj (waiting.symm.trans hwaiting)
    exact .inr (.inr ⟨_, rfl⟩)
  | cancelled => exact .inr (.inl ⟨rfl, rfl⟩)
  | streamed streaming => exact absurd (streaming.symm.trans hwaiting) nofun

theorem Sound.frees (hs : s.Sound) (hr : r ∈ s.requests) {outcome : CallOutcome}
    (hkept : outcome.kept = false)
    (hstep : (keyedRequests ttl maxEntries).step (.finish r.id outcome) s = some s') :
    ∀ e ∈ s'.entries, e.key ≠ r.key := by
  simp only [keyedRequests, Keyed.step, hs.getRequest hr, bind_some] at hstep
  split at hstep
  · rename_i hcalling
    obtain rfl := some.inj hstep
    intro e he hkey
    simp only [Keyed.finish, Keyed.setRequest, Keyed.note, hkept, Bool.false_eq_true, if_false]
      at he
    obtain ⟨he, hne⟩ := (mem_forget hs.keys).1 he
    -- under the key there is only the entry of the call itself
    obtain ⟨d, hd, hid⟩ := hs.calling r hr hcalling
    obtain rfl := hs.entry_eq hd he ((hs.owner hd hr hid).1.symm.trans hkey.symm)
    exact hne ⟨hkey, hid⟩
  · cases hstep

theorem Sound.once (hs : s.Sound) (hf : s.Followed) (hm : s.Remembered ttl) :
    s.Once ttl maxEntries where
  single := hs.single_calling
  running r hr hcalling := by
    obtain ⟨e, he, hid⟩ := hs.calling r hr hcalling
    obtain ⟨hkey, -, hfits⟩ := hs.owner he hr hid
    rw [hcalling] at hfits
    exact ⟨e, he, hid, hkey.symm, hfits.2.1⟩
  follows r hr hcalling s' hstep := by
    obtain rfl := some.inj hstep
    obtain ⟨e, hget, hid, hprint, hcall, -⟩ := hs.get_calling hr hcalling
    rw [← hprint, run_of_call hget hcall, hid]
    exact ⟨rfl, rfl⟩
  waits r hr leader hwaiting a s' hstep := by
    obtain ⟨r', hr', hgoes⟩ := (Requests.of_did hs (did_of_step hstep)).on r hr
    exact ⟨r', hr', hgoes.identity.1, hgoes.waits hwaiting⟩
  woken r hr leader hwaiting := hf.wake hs hr hwaiting
  answers := hf.answered
  invokers := hf.invoked
  replays := hm.replay
  frees r hr outcome hkept s' hstep := hs.frees hr hkept hstep
  mismatches e he print hprint s' hstep := by
    obtain rfl := some.inj hstep
    have hget : get e.key s.evict.entries = some e := (get_eq_some hs.evict.keys).2 ⟨he, rfl⟩
    rw [run_of_other hget hprint]
    exact ⟨rfl, rfl⟩

/-- A keyed call is executed once and replayed, in whatever order requests come, end and are
cancelled. -/
theorem calls_once (ttl : ℚ) (maxEntries : ℕ) (actions : List KeyedAction) :
    (keyedRequests ttl maxEntries).Along (Once ttl maxEntries) actions empty := by
  have hstep : ∀ a s s', (s.Sound ∧ s.Followed ∧ s.Remembered ttl) →
      (keyedRequests ttl maxEntries).step a s = some s' →
        s'.Sound ∧ s'.Followed ∧ s'.Remembered ttl := by
    rintro a s s' ⟨hs, hf, hm⟩ h
    have hdid := did_of_step h
    have hlogs := Logs.of_did hs hdid
    exact ⟨hs.did hdid, hf.step hs (Requests.of_did hs hdid) hlogs, hm.step hs hlogs⟩
  have hnone : ∀ r, r ∉ empty.requests := fun _ => not_mem_nil
  have hnever : ∀ x later, ¬ Since x later empty.log := fun _ _ h => absurd h.mem not_mem_nil
  have hempty : empty.Sound ∧ empty.Followed ∧ empty.Remembered ttl :=
    ⟨.empty, ⟨fun r hr => absurd hr (hnone r), fun r hr => absurd hr (hnone r),
      fun r hr => absurd hr (hnone r), fun r hr => absurd hr (hnone r),
      fun _ _ _ hmem => absurd hmem not_mem_nil⟩,
      ⟨fun _ _ _ _ _ h => absurd h (hnever _ _), fun _ _ _ _ _ h => absurd h (hnever _ _)⟩⟩
  exact (Machine.along_of_step hstep actions hempty).mono fun _ h => h.1.once h.2.1 h.2.2

end Keyed

end Crewquarters
