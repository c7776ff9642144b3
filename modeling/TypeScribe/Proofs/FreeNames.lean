import Mathlib.Data.List.Basic
import TypeScribe.Element.Decode

/-!
# Tables with free names

The entries of a table with free names are collected one after the other, and a name may come more than once. In the
end each name is there once, where it came first, with what came last under it.

* `Collects`: a list is collected from entries.
* `Collects.put`, `readFreeEntries_collects`: one more entry, and all entries.
* `readFree_collects`, `readFields_collects`: what is read off a table.
-/

namespace TypeScribe

/-- The names of entries, in order. -/
def entryNames (entries : List Entry) : List String := entries.map (·.key.name)

section Collecting

variable {α β : Type} {key : α → String} {make : String → β → α} {read : Node → Read β}

/-- A list is collected from entries with free names. -/
structure Collects (key : α → String) (make : String → β → α) (read : Node → Read β) (entries : List Entry)
    (all : List α) : Prop where
  /-- The names are those of the entries. -/
  names (name : String) : name ∈ all.map key ↔ name ∈ entryNames entries
  /-- They stand in the order in which they come first, so each is there once. -/
  order : (all.map key).Pairwise fun name other => (entryNames entries).idxOf name < (entryNames entries).idxOf other
  /-- Each stands with the value of the last entry of its name. -/
  last : ∀ a ∈ all, ∃ before e after b, entries = before ++ e :: after ∧ (∀ f ∈ after, f.key.name ≠ e.key.name) ∧
    read e.value = .ok b ∧ a = make e.key.name b

/-- What is there after an entry was put: the entry, and what has other names. -/
theorem mem_putEntry {a b : α} {l : List α} (hl : (l.map key).Nodup) (h : b ∈ putEntry key a l) :
    b = a ∨ b ∈ l ∧ key b ≠ key a := by
  induction l with
  | nil => exact .inl (List.mem_singleton.mp h)
  | cons c rest ih =>
    rw [List.map_cons, List.nodup_cons] at hl
    rw [putEntry] at h
    split at h
    · next hc =>
      refine (List.mem_cons.mp h).imp_right fun hb => ⟨List.mem_cons_of_mem _ hb, fun heq => hl.1 ?_⟩
      rw [hc, ← heq]
      exact List.mem_map_of_mem hb
    · next hc =>
      rcases List.mem_cons.mp h with rfl | hb
      · exact .inr ⟨List.mem_cons_self, hc⟩
      · exact (ih hl.2 hb).imp_right fun hb => ⟨List.mem_cons_of_mem _ hb.1, hb.2⟩

namespace Collects

variable {entries : List Entry} {all : List α}

theorem nil : Collects key make read [] [] where
  names _ := Iff.rfl
  order := .nil
  last _ h := absurd h List.not_mem_nil

theorem nodup (h : Collects key make read entries all) : (all.map key).Nodup := by
  refine h.order.imp ?_
  rintro name _ hlt rfl
  exact Nat.lt_irrefl _ hlt

/-- One more entry goes to the end, or takes the place of the one with its name. -/
theorem put (h : Collects key make read entries all) (hkey : ∀ name b, key (make name b) = name) (e : Entry) {b : β}
    (hb : read e.value = .ok b) :
    Collects key make read (entries ++ [e]) (putEntry key (make e.key.name b) all) := by
  have hnames : entryNames (entries ++ [e]) = entryNames entries ++ [e.key.name] := by
    rw [entryNames, List.map_append]
    rfl
  have hkeys := keys_putEntry key (make e.key.name b) all
  rw [hkey] at hkeys
  -- A name that was there comes first where it did.
  have hfirst : ∀ name ∈ all.map key, (entryNames (entries ++ [e])).idxOf name = (entryNames entries).idxOf name :=
    fun name hname => by rw [hnames, List.idxOf_append_of_mem ((h.names name).mp hname)]
  have horder : (all.map key).Pairwise fun name other =>
      (entryNames (entries ++ [e])).idxOf name < (entryNames (entries ++ [e])).idxOf other :=
    h.order.imp_of_mem fun hname hother hlt => by rwa [hfirst _ hname, hfirst _ hother]
  refine ⟨fun name => ?_, ?_, fun a ha => ?_⟩
  · rw [hkeys, hnames, List.mem_append, ← h.names, List.mem_singleton]
    split
    · next hmem => exact ⟨.inl, fun hor => hor.elim id fun heq => heq ▸ hmem⟩
    · rw [List.mem_append, List.mem_singleton]
  · rw [hkeys]
    split
    · exact horder
    · next hnew =>
      refine List.pairwise_append.mpr ⟨horder, List.pairwise_singleton _ _, fun name hname other hother => ?_⟩
      obtain rfl := List.mem_singleton.mp hother
      have hnot : e.key.name ∉ entryNames entries := mt (h.names _).mpr hnew
      rw [hfirst name hname, hnames, List.idxOf_append_of_notMem hnot]
      exact Nat.lt_add_right _ (List.idxOf_lt_length_of_mem ((h.names name).mp hname))
  · rcases mem_putEntry h.nodup ha with rfl | ⟨ha, hne⟩
    · exact ⟨entries, e, [], b, rfl, fun _ hf => absurd hf List.not_mem_nil, hb, rfl⟩
    · obtain ⟨before, f, after, c, rfl, hafter, hc, rfl⟩ := h.last a ha
      rw [hkey, hkey] at hne
      refine ⟨before, f, after ++ [e], c, by simp, ?_, hc, rfl⟩
      rw [List.forall_mem_append, List.forall_mem_singleton]
      exact ⟨hafter, Ne.symm hne⟩

end Collects

/-- Entries are collected in order. -/
theorem readFreeEntries_collects (hkey : ∀ name b, key (make name b) = name) {earlier entries : List Entry}
    {done all : List α} (h : Collects key make read earlier done)
    (hread : readFreeEntries key make read done entries = .ok all) :
    Collects key make read (earlier ++ entries) all := by
  induction entries generalizing earlier done with
  | nil =>
    rw [readFreeEntries] at hread
    obtain rfl := Except.ok.inj hread
    rwa [List.append_nil]
  | cons e rest ih =>
    obtain ⟨k, value⟩ := e
    rw [readFreeEntries] at hread
    cases hb : read value with
    | error f => rw [hb] at hread; cases hread
    | ok b =>
      rw [hb] at hread
      have hmore := ih (h.put hkey ⟨k, value⟩ hb) hread
      rwa [List.append_assoc] at hmore

/-- They are if all their values can be read. -/
theorem readFreeEntries_isOk_iff {done : List α} {entries : List Entry} :
    (∃ all, readFreeEntries key make read done entries = .ok all) ↔ ∀ e ∈ entries, ∃ b, read e.value = .ok b := by
  induction entries generalizing done with
  | nil => exact ⟨fun _ _ h => absurd h List.not_mem_nil, fun _ => ⟨done, rfl⟩⟩
  | cons e rest ih =>
    obtain ⟨k, value⟩ := e
    rw [List.forall_mem_cons, readFreeEntries]
    cases read value with
    | error f => simp [bind, Except.bind]
    | ok b => simp [bind, Except.bind, ih]

/-- What is read off a table with free names is collected from its entries. -/
theorem readFree_collects (hkey : ∀ name b, key (make name b) = name) {n : Node} {all : List α}
    (h : readFree key make read n = .ok all) :
    ∃ span entries, n = .table span entries true ∧ Collects key make read entries all := by
  cases n with
  | table span entries closed =>
    rw [readFree] at h
    cases hread : readFreeEntries key make read [] entries with
    | error f => rw [hread] at h; cases h
    | ok all' =>
      cases closed with
      | false => rw [hread] at h; cases h
      | true =>
        rw [hread] at h
        obtain rfl : all' = all := Except.ok.inj h
        exact ⟨span, entries, rfl, readFreeEntries_collects hkey .nil hread⟩
  | _ => cases h

/-- A table with free names can be read if all its values can, those under a name that comes again too. -/
theorem readFree_isOk_iff (span : Span) (entries : List Entry) :
    (∃ all, readFree key make read (.table span entries true) = .ok all) ↔
      ∀ e ∈ entries, ∃ b, read e.value = .ok b := by
  rw [← @readFreeEntries_isOk_iff α β key make read [] entries, readFree]
  cases readFreeEntries key make read [] entries with
  | error f => exact ⟨by rintro ⟨_, ⟨⟩⟩, by rintro ⟨_, ⟨⟩⟩⟩
  | ok all => exact ⟨fun _ => ⟨all, rfl⟩, fun _ => ⟨all, rfl⟩⟩

end Collecting

/-- Fields are collected from the table they are read off. -/
theorem readFields_collects {n : Node} {fields : Fields} (h : readFields n = .ok fields) :
    ∃ span entries, n = .table span entries true ∧ Collects Field.name Field.mk readText entries fields :=
  readFree_collects (fun _ _ => rfl) h

end TypeScribe
