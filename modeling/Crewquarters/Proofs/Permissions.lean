import Crewquarters.Permissions

/-!
# What an approval covers

`_normalize_permissions` reads every field of the block that gives capabilities except one:
`connectors.sip`. Two blocks that match therefore have the same capabilities exactly if they name
the same `sip` operations.
-/

namespace Crewquarters

open List

variable {l m : List String}

theorem sorted_eq_iff : sorted l = sorted m ↔ l.Perm m := by
  have hl := perm_insertionSort (· ≤ ·) l
  have hm := perm_insertionSort (· ≤ ·) m
  refine ⟨fun h => ?_, fun h => ?_⟩
  · unfold sorted at h
    rw [h] at hl
    exact hl.symm.trans hm
  · exact List.Perm.eq_of_sortedLE sortedLE_insertionSort sortedLE_insertionSort
      (hl.trans (h.trans hm.symm))

theorem mem_of_sorted_eq (h : sorted l = sorted m) (x : String) : x ∈ l ↔ x ∈ m :=
  (sorted_eq_iff.1 h).mem_iff

theorem sorted_dedup_eq_iff : sorted l.dedup = sorted m.dedup ↔ ∀ x, x ∈ l ↔ x ∈ m := by
  rw [sorted_eq_iff, perm_ext_iff_of_nodup (nodup_dedup l) (nodup_dedup m)]
  simp only [mem_dedup]

theorem sip_mem_iff (p : PermissionBlock) (modelBindings : List (String × String)) (op : String) :
    "sip." ++ op ∈ addedCapabilities p modelBindings ↔ op ∈ p.connector "sip" := by
  have hne : ∀ start rest : String, start.toList.head?.any (· ≠ 's') = true →
      start ++ rest ≠ "sip." ++ op := by
    intro start rest hhead heq
    have hlist := congrArg (fun x : String => x.toList.head?) heq
    simp only [String.toList_append, head?_append] at hlist
    cases hstart : start.toList.head? with
    | none => simp [hstart] at hhead
    | some c =>
      rw [hstart] at hlist hhead
      obtain rfl : c = 's' := Option.some.inj hlist
      simp at hhead
  have hword : ∀ word ∈ ["user_input", "events.write", "idempotency"], "sip." ++ op ≠ word := by
    intro word hword heq
    have hheads : ∀ w ∈ ["user_input", "events.write", "idempotency"],
        w.toList.head?.any (· ≠ 's') = true := by decide
    exact hne word "" (hheads word hword) (by rw [String.append_empty, heq])
  simp only [addedCapabilities, mem_append, mem_map]
  constructor
  · rintro (((((((((⟨x, -, hx⟩ | ⟨x, -, hx⟩) | ⟨x, -, hx⟩) | ⟨x, -, hx⟩) | ⟨x, hop, hx⟩) |
      ⟨x, -, hx⟩) | ⟨x, -, hx⟩) | ⟨x, -, hx⟩) | h) | h)
    · exact absurd hx (hne "llm.profile:" _ (by decide))
    · exact absurd hx (hne "knowledge.search:" _ (by decide))
    · exact absurd hx (hne "google." _ (by decide))
    · exact absurd hx (hne "twilio." _ (by decide))
    · have heq : x = op := by simpa using hx
      exact heq ▸ hop
    · exact absurd hx (hne "github." _ (by decide))
    · exact absurd hx (hne "agents.start:" _ (by decide))
    · exact absurd hx (hne "cloud." _ (by decide))
    · split_ifs at h
      · exact absurd (mem_singleton.1 h) (hword _ (by simp))
      · exact absurd h not_mem_nil
    · rcases mem_cons.1 h with h | h
      · exact absurd h (hword _ (by simp))
      · exact absurd (mem_singleton.1 h) (hword _ (by simp))
  · exact fun h => .inl (.inl (.inl (.inl (.inl (.inr ⟨op, h, rfl⟩)))))

def blockWith (connectors : List (String × Json)) : Json :=
  .obj [("llmProfiles", .arr [.str "local.general"]), ("knowledge", .arr []),
    ("connectors", .obj connectors), ("cloudProviders", .arr []), ("userInput", .bool false)]

def withoutSip : PermissionBlock := ⟨blockWith [], by decide⟩

def withSip : PermissionBlock :=
  ⟨blockWith [("sip", .arr [.str "call.conversational"])], by decide⟩

/-- An owner who approves the block without `sip` approves the one with it. -/
theorem withoutSip_approves : permissionsMatch withoutSip withSip = true
    ∧ capabilitiesFromPermissions withoutSip [] ≠ capabilitiesFromPermissions withSip [] := by
  refine ⟨by decide, fun h => ?_⟩
  have hmem := (sorted_dedup_eq_iff.1 h ("sip." ++ "call.conversational")).2
    ((sip_mem_iff _ _ _).2 (by decide))
  exact absurd ((sip_mem_iff _ _ _).1 hmem) (by decide)

/-- The capabilities of two blocks that match are the same, under any model bindings, exactly if
both name the same `sip` operations. -/
theorem capabilities_eq_iff (approved requested : PermissionBlock)
    (modelBindings : List (String × String)) (h : permissionsMatch approved requested = true) :
    capabilitiesFromPermissions approved modelBindings
      = capabilitiesFromPermissions requested modelBindings
    ↔ ∀ op, op ∈ approved.connector "sip" ↔ op ∈ requested.connector "sip" := by
  rw [capabilitiesFromPermissions, capabilitiesFromPermissions, sorted_dedup_eq_iff]
  constructor
  · intro hsame op
    rw [← sip_mem_iff approved modelBindings, hsame, sip_mem_iff]
  · intro hsip x
    have hnormal : normalizePermissions approved = normalizePermissions requested := by
      simpa [permissionsMatch] using h
    simp only [normalizePermissions, NormalPermissions.mk.injEq] at hnormal
    obtain ⟨hllm, hknowledge, hgoogle, htwilio, hgithub, hcloud, hstarts, hinput⟩ := hnormal
    simp only [addedCapabilities, mem_append, mem_map, mem_of_sorted_eq hllm,
      mem_of_sorted_eq hknowledge, mem_of_sorted_eq hgoogle, mem_of_sorted_eq htwilio,
      mem_of_sorted_eq hgithub, mem_of_sorted_eq hcloud, mem_of_sorted_eq hstarts, hinput, hsip]

/-- The same `sip` operations next to two spellings of the same other connectors. -/
def googleFirst : PermissionBlock :=
  ⟨blockWith [("google", .arr [.str "gmail.readonly", .str "spreadsheets"]),
    ("sip", .arr [.str "call.conversational"])], by decide⟩

def sipFirst : PermissionBlock :=
  ⟨blockWith [("sip", .arr [.str "call.conversational"]),
    ("google", .arr [.str "spreadsheets", .str "gmail.readonly"])], by decide⟩

theorem googleFirst_capabilities :
    capabilitiesFromPermissions googleFirst [("local.general", "local.general.small")]
      = capabilitiesFromPermissions sipFirst [("local.general", "local.general.small")] :=
  (capabilities_eq_iff googleFirst sipFirst _ (by decide)).2 fun _ => Iff.rfl

end Crewquarters
