/-
StepTone.Proofs.ListingFaults — why a listing is not written.

Between a request and its listing stand four questions: whether there is such a format,
whether the name can stand, whether all numbers can be written, and whether the writer takes
the text. They are asked in this order, and what goes wrong at one of the first three leaves
the writer alone. This holds of any table and of any steps, since five of the formats have a
text for every number, and only a document has none for some.

* `UnknownFormat`, `BadName`, `Unshowable` — the first three reasons.
* `recorder` — a writer that keeps what it is handed and answers as it likes.
* `layout_of_unknownFormat`, `layout_of_asks` — from a request to its layout.
* `render_of_unshowable`, `exists_render_of_showable` — from a layout to its text.
* `run_write_of_error`, `run_write_of_ok` — from a text to the writer.
* `write_fails_exactly` — all reasons, their order, and what the writer is handed.
-/
import Mathlib
import StepTone.Proofs.ConfigurationFaults
import StepTone.Proofs.ListingValues

namespace StepTone.Listing

open Binary64 (isFinite value)
open Song (Sequence)

variable {r : Request} {f : Format} {t : Table Float} {s : Option (Sequence Float)}

/-! ## Requests -/

namespace Request

/-- The request names a format that is not one of the six. -/
def UnknownFormat (r : Request) : Prop :=
  r.format ≠ "" ∧ r.format ∉ Format.names

/-- The request is for the format, by its name or by leaving it open. -/
def Asks (r : Request) (f : Format) : Prop :=
  r.format = f.name ∨ r.format = "" ∧ f = .bytes

/-- The request gives a name that cannot stand. -/
def BadName (r : Request) : Prop :=
  r.name ≠ "" ∧ checkName r.name ≠ .ok ()

/-- The layout of a request for a format, with the usual name and the usual rows where
these are left open. -/
def inFormat (r : Request) (f : Format) : Layout where
  format := f
  name := if r.name = "" then "delay_table" else r.name
  perLine := if r.perLine ≤ 0 then 16 else r.perLine
  summary := r.summary

/-- The request is for a document, and one of the numbers in it is infinite or undefined. -/
def Unshowable (r : Request) (t : Table Float) (s : Option (Sequence Float)) : Prop :=
  r.format = "json" ∧
    ∃ x ∈ shownNumbers t s, value x = .nan ∨ ∃ negative, value x = .infinite negative

/-- The text is the listing that the request asks for. -/
def Lists (r : Request) (t : Table Float) (s : Option (Sequence Float)) (text : String) : Prop :=
  ∃ f, r.Asks f ∧ render (r.inFormat f) t s = .ok text

/-! ## The layout -/

theorem mem_names_iff {name : String} : name ∈ Format.names ↔ ∃ f : Format, name = f.name := by
  constructor
  · intro h
    obtain ⟨f, -, rfl⟩ := List.mem_map.mp h
    exact ⟨f, rfl⟩
  · rintro ⟨f, rfl⟩
    cases f <;> decide

theorem ofExactName?_of_not_mem {name : String} (h : name ∉ Format.names) :
    Format.ofExactName? name = none := by
  rw [Format.ofExactName?, List.find?_eq_none]
  intro f hf hname
  exact h (List.mem_map.mpr ⟨f, hf, of_decide_eq_true hname⟩)

/-- A request is for a format, unless it names one that is not known. -/
theorem exists_asks (h : ¬ r.UnknownFormat) : ∃ f, r.Asks f := by
  by_cases hempty : r.format = ""
  · exact ⟨.bytes, .inr ⟨hempty, rfl⟩⟩
  · have hmem : r.format ∈ Format.names := not_not.mp fun hnot => h ⟨hempty, hnot⟩
    obtain ⟨f, hf⟩ := mem_names_iff.mp hmem
    exact ⟨f, .inl hf⟩

theorem layout_of_unknownFormat (h : r.UnknownFormat) :
    r.layout = .error (.unknownFormat r.format Format.names) := by
  rw [layout, if_neg h.1, ofExactName?_of_not_mem h.2]
  rfl

/-- A known format leaves the question of the name, the usual one included. -/
theorem layout_of_asks (h : r.Asks f) :
    r.layout = (checkName (r.inFormat f).name).map fun _ => r.inFormat f := by
  rw [layout]
  rcases h with hname | ⟨hempty, rfl⟩
  · have hne : r.format ≠ "" := hname ▸ name_ne_empty f
    rw [if_neg hne, hname, ofExactName?_name]
    change (checkName (r.inFormat f).name >>= fun _ => pure (r.inFormat f)) = _
    cases checkName (r.inFormat f).name <;> rfl
  · rw [if_pos hempty]
    change (checkName (r.inFormat .bytes).name >>= fun _ => pure (r.inFormat .bytes)) = _
    cases checkName (r.inFormat .bytes).name <;> rfl

/-- The usual name can stand, and any other one hangs on the request. -/
theorem checkName_inFormat (h : ¬ r.BadName) (f : Format) :
    checkName (r.inFormat f).name = .ok () := by
  refine checkName_symbol ?_
  by_cases hempty : r.name = ""
  · exact .inl hempty
  · exact .inr (not_not.mp fun hbad => h ⟨hempty, hbad⟩)

theorem exists_fault_of_badName (h : r.BadName) :
    ∃ fault : Fault, fault.CodedIn [.configValidation] ∧
      ∀ f, checkName (r.inFormat f).name = .error fault := by
  obtain ⟨hne, hbad⟩ := h
  cases hname : checkName r.name with
  | ok _ => exact absurd hname hbad
  | error fault =>
    refine ⟨fault, ?_, fun f => ?_⟩
    · rw [checkName] at hname
      split at hname
      · obtain rfl := Except.error.inj hname
        exact ⟨_, none, rfl, List.mem_singleton_self _⟩
      split at hname
      · obtain rfl := Except.error.inj hname
        exact ⟨_, none, rfl, List.mem_singleton_self _⟩
      · cases hname
    · rw [inFormat, if_neg hne]
      exact hname

end Request

/-! ## The text -/

theorem isFinite_eq_false_iff {x : Float} :
    isFinite x = false ↔ value x = .nan ∨ ∃ negative, value x = .infinite negative := by
  rw [isFinite]
  cases value x with
  | nan => simp
  | infinite negative => simp
  | finite negative m q => simp

theorem render_of_unshowable {l : Layout} (hformat : l.format = .json)
    (h : ∃ x ∈ shownNumbers t s, isFinite x = false) :
    ∃ fault : Fault, fault.CodedIn [.output] ∧ render l t s = .error fault := by
  rw [render, hformat]
  change ∃ fault : Fault, fault.CodedIn [.output] ∧ renderJson l t s = .error fault
  rw [renderJson]
  cases hfirst : (documentJson l t s).firstUndefined? with
  | some x => exact ⟨_, ⟨_, some _, rfl, List.mem_singleton_self _⟩, rfl⟩
  | none =>
    obtain ⟨x, hx, hinfinite⟩ := h
    rw [firstUndefined?_documentJson.mp hfirst x hx] at hinfinite
    cases hinfinite

namespace Request

/-- A request is for a document only by its name. -/
theorem Asks.eq_json (h : r.Asks f) (hformat : r.format = "json") : f = .json := by
  rcases h with hname | ⟨hempty, -⟩
  · cases f <;> revert hname <;> rw [hformat] <;> decide
  · rw [hempty] at hformat
    exact absurd hformat (by decide)

theorem exists_render_of_showable (hasks : r.Asks f) (h : ¬ r.Unshowable t s) :
    ∃ text, render (r.inFormat f) t s = .ok text := by
  refine exists_render_iff.mpr fun hformat x hx => ?_
  have hjson : r.format = "json" := by
    obtain rfl : f = .json := hformat
    rcases hasks with hname | ⟨-, hbytes⟩
    · exact hname
    · cases hbytes
  by_contra hinfinite
  rw [Bool.not_eq_true] at hinfinite
  exact h ⟨hjson, x, hx, isFinite_eq_false_iff.mp hinfinite⟩

/-! ## The three reasons not to write -/

theorem text_of_unknownFormat (h : r.UnknownFormat) :
    r.text t s = .error (.unknownFormat r.format Format.names) := by
  rw [text, layout_of_unknownFormat h]
  rfl

theorem exists_text_of_badName (hformat : ¬ r.UnknownFormat) (h : r.BadName) :
    ∃ fault : Fault, fault.CodedIn [.configValidation] ∧ r.text t s = .error fault := by
  obtain ⟨f, hasks⟩ := exists_asks hformat
  obtain ⟨fault, hcoded, hname⟩ := exists_fault_of_badName h
  refine ⟨fault, hcoded, ?_⟩
  rw [text, layout_of_asks hasks, hname f]
  rfl

theorem text_of_asks (hasks : r.Asks f) (hname : ¬ r.BadName) :
    r.text t s = (render (r.inFormat f) t s).map fun text => (f, text) := by
  have hlayout : r.layout = .ok (r.inFormat f) := by
    rw [layout_of_asks hasks, checkName_inFormat hname f]
    rfl
  exact text_of_layout hlayout t s

theorem exists_text_of_unshowable (hformat : ¬ r.UnknownFormat) (hname : ¬ r.BadName)
    (h : r.Unshowable t s) :
    ∃ fault : Fault, fault.CodedIn [.output] ∧ r.text t s = .error fault := by
  obtain ⟨f, hasks⟩ := exists_asks hformat
  obtain ⟨hjson, x, hx, hinfinite⟩ := h
  obtain rfl := hasks.eq_json hjson
  obtain ⟨fault, hcoded, hrender⟩ := render_of_unshowable (l := r.inFormat .json) rfl
    ⟨x, hx, isFinite_eq_false_iff.mpr hinfinite⟩
  refine ⟨fault, hcoded, ?_⟩
  rw [text_of_asks hasks hname, hrender]
  rfl

/-- Without these reasons there is a listing. -/
theorem exists_lists (hformat : ¬ r.UnknownFormat) (hname : ¬ r.BadName)
    (h : ¬ r.Unshowable t s) :
    ∃ f text, r.Lists t s text ∧ r.text t s = .ok (f, text) := by
  obtain ⟨f, hasks⟩ := exists_asks hformat
  obtain ⟨text, htext⟩ := exists_render_of_showable hasks h
  refine ⟨f, text, ⟨f, hasks, htext⟩, ?_⟩
  rw [text_of_asks hasks hname, htext]
  rfl

end Request

/-! ## Writers -/

/-- A writer that keeps the texts that it is handed. Whether it takes a text may hang on the
text and on all that it was handed before. -/
def recorder (answer : List String → String → Option Fault) (text : String) :
    StateM (List String) (Option Fault) := do
  let before ← get
  set (before ++ [text])
  return answer before text

variable {answer : List String → String → Option Fault} {before : List String}

theorem run_write_of_error {fault : Fault} (h : r.text t s = .error fault) :
    (r.write (recorder answer) t s).run before = (.error fault, before) := by
  rw [Request.write, h]
  rfl

theorem run_write_of_ok {text : String} (h : r.text t s = .ok (f, text)) :
    (r.write (recorder answer) t s).run before =
      ((answer before text).elim (.ok ()) fun cause =>
        .error (.unwritten (f.name ++ " output") (some cause)), before ++ [text]) := by
  have hput : (recorder answer text).run before = (answer before text, before ++ [text]) := rfl
  rw [Request.write, h]
  change ((recorder answer text >>= _).run before : Id _) = _
  rw [StateT.run_bind, hput]
  cases answer before text with
  | none => rfl
  | some cause => rfl

/-! ## All reasons -/

theorem Request.Asks.unique {f' : Format} (h : r.Asks f) (h' : r.Asks f') : f = f' := by
  rcases h with hname | ⟨hempty, rfl⟩ <;> rcases h' with hname' | ⟨hempty', rfl⟩
  · rw [hname] at hname'
    revert hname'
    cases f <;> cases f' <;> decide
  · exact absurd (hname.symm.trans hempty') (name_ne_empty f)
  · exact absurd (hname'.symm.trans hempty) (name_ne_empty f')
  · rfl

theorem Request.Lists.unique {text text' : String} (h : r.Lists t s text)
    (h' : r.Lists t s text') : text = text' := by
  obtain ⟨f, hasks, htext⟩ := h
  obtain ⟨f', hasks', htext'⟩ := h'
  obtain rfl := hasks.unique hasks'
  rw [htext] at htext'
  exact Except.ok.inj htext'

/-- A request ended with a fault of the code, and the writer has what it had before. -/
def EndsUnwritten (ended : Except Fault Unit × List String) (before : List String)
    (code : Code) : Prop :=
  ∃ fault : Fault, fault.CodedIn [code] ∧ ended = (.error fault, before)

/-- A request ended with the text in the hands of the writer, and with the fault that the
writer answered, if it did. -/
structure EndsWritten (answer : List String → String → Option Fault)
    (ended : Except Fault Unit × List String) (before : List String) (text : String) : Prop where
  handed : ended.2 = before ++ [text]
  taken : answer before text = none → ended.1 = .ok ()
  failed : ∀ cause, answer before text = some cause →
    ∃ fault : Fault, fault.CodedIn [.output] ∧ fault.cause? = some cause ∧ ended.1 = .error fault

theorem EndsUnwritten.exists_fault {ended : Except Fault Unit × List String} {code : Code}
    (h : EndsUnwritten ended before code) : ∃ fault, ended.1 = .error fault := by
  obtain ⟨fault, -, rfl⟩ := h
  exact ⟨fault, rfl⟩

theorem EndsWritten.exists_fault_iff {ended : Except Fault Unit × List String} {text : String}
    (h : EndsWritten answer ended before text) :
    (∃ fault, ended.1 = .error fault) ↔ answer before text ≠ none := by
  cases hanswer : answer before text with
  | none => simp [h.taken hanswer]
  | some cause =>
    obtain ⟨fault, -, -, hfault⟩ := h.failed cause hanswer
    simp [hfault]

theorem endsWritten_of_text {text : String} (h : r.text t s = .ok (f, text)) :
    EndsWritten answer ((r.write (recorder answer) t s).run before) before text := by
  rw [run_write_of_ok h]
  refine ⟨rfl, fun hanswer => ?_, fun cause hanswer => ?_⟩
  · rw [hanswer]
    rfl
  · rw [hanswer]
    exact ⟨_, ⟨_, some cause, rfl, List.mem_singleton_self _⟩, rfl, rfl⟩

/-- A listing fails for these reasons only, looked at in this order: its format is not known;
its name cannot stand; it is a document with a number that is infinite or undefined; the
writer fails. For the first three the writer is handed nothing, and otherwise the whole
listing at once. -/
theorem write_fails_exactly (r : Request) (t : Table Float) (s : Option (Sequence Float))
    (answer : List String → String → Option Fault) (before : List String) :
    let ended := (r.write (recorder answer) t s).run before
    (r.UnknownFormat → EndsUnwritten ended before .format) ∧
    (¬ r.UnknownFormat → r.BadName → EndsUnwritten ended before .configValidation) ∧
    (¬ r.UnknownFormat → ¬ r.BadName → r.Unshowable t s → EndsUnwritten ended before .output) ∧
    (¬ r.UnknownFormat → ¬ r.BadName → ¬ r.Unshowable t s →
      ∃ text, r.Lists t s text ∧ EndsWritten answer ended before text) ∧
    ((∃ fault, ended.1 = .error fault) ↔
      r.UnknownFormat ∨ r.BadName ∨ r.Unshowable t s ∨
        ∃ text, r.Lists t s text ∧ answer before text ≠ none) := by
  intro ended
  have hunknown (h : r.UnknownFormat) : EndsUnwritten ended before .format :=
    ⟨_, ⟨_, none, rfl, List.mem_singleton_self _⟩,
      run_write_of_error (Request.text_of_unknownFormat h)⟩
  have hbad (hformat : ¬ r.UnknownFormat) (h : r.BadName) :
      EndsUnwritten ended before .configValidation := by
    obtain ⟨fault, hcoded, htext⟩ := Request.exists_text_of_badName hformat h
    exact ⟨fault, hcoded, run_write_of_error htext⟩
  have hunshowable (hformat : ¬ r.UnknownFormat) (hname : ¬ r.BadName) (h : r.Unshowable t s) :
      EndsUnwritten ended before .output := by
    obtain ⟨fault, hcoded, htext⟩ := Request.exists_text_of_unshowable hformat hname h
    exact ⟨fault, hcoded, run_write_of_error htext⟩
  have hwritten (hformat : ¬ r.UnknownFormat) (hname : ¬ r.BadName) (h : ¬ r.Unshowable t s) :
      ∃ text, r.Lists t s text ∧ EndsWritten answer ended before text := by
    obtain ⟨f, text, hlists, htext⟩ := Request.exists_lists hformat hname h
    exact ⟨text, hlists, endsWritten_of_text htext⟩
  refine ⟨hunknown, hbad, hunshowable, hwritten, ?_⟩
  by_cases hformat : r.UnknownFormat
  · exact iff_of_true (hunknown hformat).exists_fault (.inl hformat)
  by_cases hname : r.BadName
  · exact iff_of_true (hbad hformat hname).exists_fault (.inr (.inl hname))
  by_cases hshow : r.Unshowable t s
  · exact iff_of_true (hunshowable hformat hname hshow).exists_fault (.inr (.inr (.inl hshow)))
  -- the listing is then the only one that the request can mean
  obtain ⟨text, hlists, hends⟩ := hwritten hformat hname hshow
  simp only [hformat, hname, hshow, false_or, hends.exists_fault_iff]
  constructor
  · exact fun hanswer => ⟨text, hlists, hanswer⟩
  · rintro ⟨text', hlists', hanswer⟩
    rwa [hlists.unique hlists']

/-- The usual table with an undefined frequency as its upper bound. -/
def unboundedTable : Table Float :=
  { Table.HalfHertz.table with
    bounds := { Table.HalfHertz.limits with fMax := Arithmetic.ofInt 0 / Arithmetic.ofInt 0 } }

/-- A writer that takes one text. -/
def takesOne (before : List String) (_ : String) : Option Fault :=
  if before = [] then none else some (.plain "full")

/-- Requests with more than one thing wrong fail for the first of them; and a writer that
takes one text fails with the second one in its hands. -/
theorem write_fails_in_order :
    EndsUnwritten ((({ format := "wav", name := "1" } : Request).write (recorder takesOne)
      unboundedTable none).run []) [] .format ∧
    EndsUnwritten ((({ format := "json", name := "1" } : Request).write (recorder takesOne)
      unboundedTable none).run []) [] .configValidation ∧
    EndsUnwritten ((({ format := "json" } : Request).write (recorder takesOne)
      unboundedTable none).run []) [] .output ∧
    ∃ text fault, (({ format := "csv" } : Request).write (recorder takesOne)
      unboundedTable none).run ["0x00"] = (.error fault, ["0x00", text]) := by
  have hnumeral : ¬ checkName "1" = .ok () :=
    fun h => absurd (isIdentifier_of_checkName h) (by decide)
  have hundefined : ({ format := "json" } : Request).Unshowable unboundedTable none := by
    refine ⟨rfl, unboundedTable.bounds.fMax, ?_, .inl (by decide +kernel)⟩
    simp [shownNumbers]
  have hknown {name : String} : ¬ ({ format := "json", name } : Request).UnknownFormat :=
    fun h => h.2 (by decide : "json" ∈ Format.names)
  have hcsv : ¬ ({ format := "csv" } : Request).UnknownFormat :=
    fun h => h.2 (by decide : "csv" ∈ Format.names)
  obtain ⟨hformat, -⟩ := write_fails_exactly { format := "wav", name := "1" } unboundedTable none
    takesOne []
  obtain ⟨-, hname, -⟩ := write_fails_exactly { format := "json", name := "1" } unboundedTable none
    takesOne []
  obtain ⟨-, -, hnumber, -⟩ := write_fails_exactly { format := "json" } unboundedTable none
    takesOne []
  obtain ⟨-, -, -, hwriter, -⟩ := write_fails_exactly { format := "csv" } unboundedTable none
    takesOne ["0x00"]
  obtain ⟨text, -, hhanded, -, hfailed⟩ :=
    hwriter hcsv (fun h => h.1 rfl) fun h => absurd h.1 (by decide)
  obtain ⟨fault, -, -, hfault⟩ := hfailed (.plain "full") rfl
  exact ⟨hformat ⟨by decide, by decide⟩, hname hknown ⟨by decide, hnumeral⟩,
    hnumber hknown (fun h => h.1 rfl) hundefined, text, fault, Prod.ext hfault hhanded⟩

end StepTone.Listing
