import TypeScribe.Proofs.Cursors
import TypeScribe.Proofs.KeyOrder

/-!
# Settings in trees

Two settings are judged before the elements are: the indent and the name of the service. A setting that does not fit is
written in the tree the document was read from: under its key in a table of the whole, unless this table or the whole is
written as a list of values.

* `Setting`: these settings, with the table and the key that each belongs to.
* `Record.fillEntries_optional`, `Record.fillEntries_taken`: what is not as before, or is taken, comes from an entry.
* `Setting.written_of_unfit`: a setting that does not fit is written in the tree.
-/

namespace TypeScribe

/-- A setting that is judged before the elements are. -/
inductive Setting where
  | indent
  | serviceName

namespace Setting

/-- The key of the table that a setting belongs to. -/
def table : Setting → String
  | indent => "output"
  | serviceName => "service"

/-- The key of a setting in its table. -/
def key : Setting → String
  | indent => "indent"
  | serviceName => "name"

/-- A setting is the first one of a document that does not fit. -/
def IsUnfit (d : Document) : Setting → Prop
  | indent => ¬ d.HasFitIndent
  | serviceName => d.HasFitIndent ∧ ¬ d.HasFitName

end Setting

/-- A tree has a setting under a key: an entry of a table of the whole. -/
inductive Node.HasSetting (setting : Setting) : Node → Key → Prop
  | entry {span span' : Span} {entries settings : List Entry} {closed closed' : Bool} {table key : Key} {value : Node}
    (htable : ⟨table, .table span' settings closed'⟩ ∈ entries) (htableName : table.name = setting.table)
    (hkey : ⟨key, value⟩ ∈ settings) (hkeyName : key.name = setting.key) :
    HasSetting setting (.table span entries closed) key

/-- A tree writes the values of a setting's table, or those of the whole, as a list without keys. -/
inductive Node.Lists (setting : Setting) : Node → Prop
  | whole (span : Span) (items : List Node) (closed : Bool) : Lists setting (.array span items closed)
  | table {span span' : Span} {entries : List Entry} {items : List Node} {closed closed' : Bool} {table : Key}
    (htable : ⟨table, .array span' items closed'⟩ ∈ entries) (htableName : table.name = setting.table) :
    Lists setting (.table span entries closed)

/-! ## Records -/

section Records

variable {σ α : Type} {rec : Record σ} {entries : List Entry}

theorem map_eq_ok {ε β : Type} {x : Except ε α} {f : α → β} {b : β} (h : x.map f = .ok b) :
    ∃ a, x = .ok a ∧ f a = b := by
  cases x with
  | error err => cases h
  | ok a => exact ⟨a, rfl, Except.ok.inj h⟩

theorem Record.name_of_column? {name : String} {c : Column σ} (h : rec.column? name = some c) :
    c ∈ rec.columns ∧ name ∈ c.names := by
  rw [column?] at h
  exact ⟨List.mem_of_find?_eq_some h, List.contains_iff_mem.mp (List.find?_some h :)⟩

/-- An optional field with another purpose leaves alone what it does not set. -/
theorem Column.optional_frame {β : Type} {name : String} {read : Node → Read β} {set : β → σ → σ} {get : σ → α}
    (h : ∀ v s, get (set v s) = get s) :
    ∀ n s s', (Column.optional name read set).fill n s = .ok s' → get s' = get s := by
  intro n s s' hfill
  obtain ⟨v, -, rfl⟩ := map_eq_ok hfill
  exact h v s

/-- What only one optional field sets is as before, or was read from an entry under the name of the field. -/
theorem Record.fillEntries_optional {name : String} {read : Node → Read α} (get : σ → α) (set : α → σ → σ)
    (hget : ∀ v s, get (set v s) = v)
    (hcolumns : ∀ c ∈ rec.columns, c = .optional name read set ∨ ∀ n s s', c.fill n s = .ok s' → get s' = get s)
    {taken : List String} {s : σ} {result : List String × σ} (h : rec.fillEntries taken s entries = .ok result) :
    get result.2 = get s ∨ ∃ e ∈ entries, e.key.name = name ∧ read e.value = .ok (get result.2) := by
  induction entries generalizing taken s with
  | nil =>
    rw [fillEntries] at h
    exact .inl (Except.ok.inj h ▸ rfl)
  | cons e rest ih =>
    obtain ⟨c, hc, -, s₁, hfill, hrest⟩ := fillEntries_cons_eq_ok_iff.mp h
    obtain ⟨hmem, hkey⟩ := name_of_column? hc
    rcases ih hrest with hsame | ⟨f, hf, hlater⟩
    · rcases hcolumns c hmem with rfl | hframe
      · obtain ⟨v, hread, rfl⟩ := map_eq_ok hfill
        rw [hget] at hsame
        exact .inr ⟨e, List.mem_cons_self, List.mem_singleton.mp hkey, hsame ▸ hread⟩
      · exact .inl (hsame.trans (hframe _ _ _ hfill))
    · exact .inr ⟨f, List.mem_cons_of_mem e hf, hlater⟩

/-- A field with one name that is taken was taken before, or there is an entry under its name. -/
theorem Record.fillEntries_taken {name : String} (hnames : ∀ c ∈ rec.columns, c.name = name → c.names = [name])
    {taken : List String} {s : σ} {result : List String × σ} (h : rec.fillEntries taken s entries = .ok result)
    (hname : name ∈ result.1) : name ∈ taken ∨ ∃ e ∈ entries, e.key.name = name := by
  induction entries generalizing taken s with
  | nil =>
    rw [fillEntries] at h
    obtain rfl := Except.ok.inj h
    exact .inl hname
  | cons e rest ih =>
    obtain ⟨c, hc, -, s₁, -, hrest⟩ := fillEntries_cons_eq_ok_iff.mp h
    obtain ⟨hmem, hkey⟩ := name_of_column? hc
    rcases ih hrest with htaken | ⟨f, hf, hlater⟩
    · rcases List.mem_cons.mp htaken with rfl | htaken
      · exact .inr ⟨e, List.mem_cons_self, List.mem_singleton.mp (hnames c hmem rfl ▸ hkey)⟩
      · exact .inl htaken
    · exact .inr ⟨f, List.mem_cons_of_mem e hf, hlater⟩

/-- A record was read from the entries of a table, and no required field is missing. -/
theorem Record.fillEntries_of_readEntries {span : Span} {closed : Bool} {s : σ}
    (h : rec.readEntries span entries closed = .ok s) :
    ∃ taken, rec.fillEntries [] rec.blank entries = .ok (taken, s) ∧ rec.missing? taken = none := by
  rw [readEntries] at h
  obtain ⟨⟨taken, s'⟩, hfill, h⟩ := bind_eq_ok h
  obtain ⟨u, -, h⟩ := bind_eq_ok h
  cases hm : rec.missing? taken with
  | none =>
    simp only [hm] at h
    exact ⟨taken, Except.ok.inj h ▸ hfill, hm⟩
  | some c =>
    simp only [hm] at h
    cases h

/-- A record is read from a table or a list. -/
theorem Record.read_cases {mode : Mode} {n : Node} {s : σ} (h : rec.read mode n = .ok s) :
    (∃ span entries closed, n = .table span entries closed ∧ rec.readEntries span entries closed = .ok s) ∨
      ∃ span items closed, n = .array span items closed := by
  cases n with
  | table span entries closed => exact .inl ⟨span, entries, closed, rfl, h⟩
  | array span items closed => exact .inr ⟨span, items, closed, rfl⟩
  | _ => cases h

end Records

/-! ## Unfit settings -/

section Unfit

variable {mode : Mode} {span : Span} {entries : List Entry} {closed : Bool}

/-- Output settings with an indent other than the usual one have an entry for it. -/
theorem indent_written {s : OutputSettings} (h : outputRecord.readEntries span entries closed = .ok s)
    (hs : s.indent ≠ 2) : ∃ e ∈ entries, e.key.name = "indent" := by
  obtain ⟨taken, hfill, -⟩ := Record.fillEntries_of_readEntries h
  have hchanged : s.indent = 2 ∨ ∃ e ∈ entries, e.key.name = "indent" ∧ readByte e.value = .ok s.indent := by
    refine Record.fillEntries_optional OutputSettings.indent (fun v s => { s with indent := v }) (fun _ _ => rfl) ?_
      hfill
    refine List.forall_mem_cons.mpr ⟨.inr (Column.optional_frame fun _ _ => rfl), ?_⟩
    refine List.forall_mem_cons.mpr ⟨.inl rfl, ?_⟩
    refine List.forall_mem_cons.mpr ⟨.inr (Column.optional_frame fun _ _ => rfl), ?_⟩
    exact List.forall_mem_singleton.mpr (.inr (Column.optional_frame fun _ _ => rfl))
  rcases hchanged with hsame | ⟨e, he, hname, -⟩
  · exact absurd hsame hs
  · exact ⟨e, he, hname⟩

/-- A service that was read has an entry for its name. -/
theorem serviceName_written {m : ServiceModel} (h : (serviceRecord mode).readEntries span entries closed = .ok m) :
    ∃ e ∈ entries, e.key.name = "name" := by
  obtain ⟨taken, hfill, hmissing⟩ := Record.fillEntries_of_readEntries h
  have hneeded := List.find?_eq_none.mp hmissing _ List.mem_cons_self
  have htaken : "name" ∈ taken := by simpa [Column.needed] using hneeded
  refine (Record.fillEntries_taken ?_ hfill htaken).resolve_left List.not_mem_nil
  simp [serviceRecord, Column.needed, Column.optional, Column.names]

/-- A document was read from the entries of the whole: its output settings and its service are as without entries, or
come from one. -/
theorem document_written {d : Document} (h : (documentRecord mode).readEntries span entries closed = .ok d) :
    (d.output = {} ∨ ∃ e ∈ entries, e.key.name = "output" ∧ outputRecord.read mode e.value = .ok d.output) ∧
    (d.service = none ∨ ∃ e ∈ entries, e.key.name = "service" ∧
      readOptional (readService mode) e.value = .ok d.service) := by
  obtain ⟨taken, hfill, -⟩ := Record.fillEntries_of_readEntries h
  constructor
  · refine Record.fillEntries_optional Document.output (fun v d => { d with output := v }) (fun _ _ => rfl) ?_ hfill
    refine List.forall_mem_cons.mpr ⟨.inl rfl, ?_⟩
    refine List.forall_mem_cons.mpr ⟨.inr (Column.optional_frame fun _ _ => rfl), ?_⟩
    exact List.forall_mem_singleton.mpr (.inr (Column.optional_frame fun _ _ => rfl))
  · refine Record.fillEntries_optional Document.service (fun v d => { d with service := v }) (fun _ _ => rfl) ?_ hfill
    refine List.forall_mem_cons.mpr ⟨.inr (Column.optional_frame fun _ _ => rfl), ?_⟩
    refine List.forall_mem_cons.mpr ⟨.inl rfl, ?_⟩
    exact List.forall_mem_singleton.mpr (.inr (Column.optional_frame fun _ _ => rfl))

theorem readService_of_readOptional {n : Node} {m : ServiceModel}
    (h : readOptional (readService mode) n = .ok (some m)) : (serviceRecord mode).read mode n = .ok m := by
  unfold readOptional at h
  split at h
  · cases h
  · obtain ⟨m', hread, heq⟩ := map_eq_ok h
    exact Option.some.inj heq ▸ hread

end Unfit

/-- A setting that does not fit is written in the tree of the document. -/
theorem Setting.written_of_unfit {setting : Setting} {format : Format} {root : Node} {d : Document}
    (h : readDocument format root = .ok d) (hunfit : setting.IsUnfit d) :
    root.Lists setting ∨ ∃ k, root.HasSetting setting k := by
  rcases Record.read_cases h with ⟨span, entries, closed, rfl, hwhole⟩ | ⟨span, items, closed, rfl⟩
  · obtain ⟨houtput, hservice⟩ := document_written hwhole
    cases setting with
    | indent =>
      have hindent : d.output.indent ≠ 2 := fun h2 => hunfit (by rw [Document.HasFitIndent, h2]; decide)
      rcases houtput with hblank | ⟨⟨table, n⟩, htable, hname, hread⟩
      · exact absurd (congrArg OutputSettings.indent hblank) hindent
      · rcases Record.read_cases hread with ⟨_, _, _, rfl, hfields⟩ | ⟨_, _, _, rfl⟩
        · obtain ⟨⟨key, value⟩, hkey, hkeyName⟩ := indent_written hfields hindent
          exact .inr ⟨key, .entry htable hname hkey hkeyName⟩
        · exact .inl (.table htable hname)
    | serviceName =>
      obtain ⟨m, hm⟩ : ∃ m, d.service = some m := by
        refine Option.ne_none_iff_exists'.mp fun hnone => hunfit.2 fun m hm => ?_
        rw [hnone] at hm
        cases hm
      rcases hservice with hnone | ⟨⟨table, n⟩, htable, hname, hread⟩
      · rw [hnone] at hm
        cases hm
      · rw [hm] at hread
        rcases Record.read_cases (readService_of_readOptional hread) with ⟨_, _, _, rfl, hfields⟩ | ⟨_, _, _, rfl⟩
        · obtain ⟨⟨key, value⟩, hkey, hkeyName⟩ := serviceName_written hfields
          exact .inr ⟨key, .entry htable hname hkey hkeyName⟩
        · exact .inl (.table htable hname)
  · exact .inl (.whole span items closed)

end TypeScribe
