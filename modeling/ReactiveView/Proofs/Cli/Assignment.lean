import ReactiveView.Proofs.Store.Readback
import ReactiveView.Cli.Run
/-!
# Assignments to the data

`render --set PATH=RAW` applies an assignment to the observed data (`Cli.assign`). The text is
cut at its first `=`; the part before, trimmed, is the path, and it must name a property that an
object has already (`Cli.Names`): the trimmed segment after the last `.` of the path as a key of
the object that the part before it resolves to, or, for a path with no `.`, the path itself as a
key of the data. The value is the part after the `=` read as JSON, or that text itself when it is
no JSON.

`assign_writes_named_property` says what an assignment does with every text. A text with no `=`,
or whose path names no property, fails with the text or the path and changes nothing. Otherwise
the value is built and written to the named key; the write returns when the forwards of the
heap stop, and when the heap holds no cycle the path then resolves to the value written.

The assignment cuts its path where `Heap.resolve` cuts it (`splitLastDot_append`,
`Heap.resolve_append`), and both trim the last segment, so the property written is the one the
path reads.
-/
namespace ReactiveView

set_option autoImplicit false

namespace Text

/-! ## Cutting a text at a character -/

/-- A text without the character is one piece. -/
theorem splitChar_of_not_mem {s : String} {c : Char} (absent : c ∉ s.toList) :
    splitChar s c = [s] := by
  simp [splitChar, List.splitOn_eq_singleton absent]

theorem splitChar_ne_nil (s : String) (c : Char) : splitChar s c ≠ [] := by
  simp [splitChar, List.splitOn_ne_nil]

/-- A separator before a last piece without the character cuts the last piece off. -/
theorem splitChar_append {first last sep : String} {c : Char} (one : sep.toList = [c])
    (absent : c ∉ last.toList) : splitChar (first ++ sep ++ last) c = splitChar first c ++ [last] := by
  simp [splitChar, one, List.splitOn_append_cons_self, List.splitOn_eq_singleton absent]

/-- A separator after a first piece without the character cuts the first piece off. -/
theorem splitChar_append_of_not_mem {first last sep : String} {c : Char} (one : sep.toList = [c])
    (absent : c ∉ first.toList) : splitChar (first ++ sep ++ last) c = first :: splitChar last c := by
  simp [splitChar, one, List.splitOn_append_cons_self_of_not_mem absent]

/-- Joining the pieces with the separator gives the text back. -/
theorem intercalate_splitChar {sep : String} {c : Char} (one : sep.toList = [c]) (s : String) :
    sep.intercalate (splitChar s c) = s := by
  apply String.toList_injective
  simp [splitChar, one, Function.comp_def]

/-- A text with the character is cut at its last occurrence. -/
theorem exists_last_cut {s sep : String} {c : Char} (one : sep.toList = [c]) (mem : c ∈ s.toList) :
    ∃ first last, s = first ++ sep ++ last ∧ c ∉ last.toList := by
  -- the first occurrence in the reversed text is the last one
  have first_cut : ∀ l : List Char, c ∈ l → ∃ a b, l = a ++ c :: b ∧ c ∉ a := by
    intro l
    induction l with
    | nil => simp
    | cons x l ih =>
      intro mem
      by_cases here : x = c
      · exact ⟨[], l, by simp [here], by simp⟩
      · obtain ⟨a, b, rfl, absent⟩ := ih ((List.mem_cons.1 mem).resolve_left (Ne.symm here))
        exact ⟨x :: a, b, rfl, by simp [Ne.symm here, absent]⟩
  obtain ⟨a, b, cut, absent⟩ := first_cut s.toList.reverse (List.mem_reverse.2 mem)
  refine ⟨String.ofList b.reverse, String.ofList a.reverse, String.toList_injective ?_, by simpa using absent⟩
  have whole : s.toList = b.reverse ++ c :: a.reverse := by
    simpa using congrArg List.reverse cut
  simp [whole, one]

/-- Trimming a trimmed text changes nothing. -/
theorem trim_trim (s : String) : trim (trim s) = trim s := by
  -- a trimmed list starts with no blank, and dropping blanks at its end is idempotent
  have front : (trimChars s.toList).dropWhile isBlank = trimChars s.toList := by
    rw [List.dropWhile_eq_self_iff]
    intro nonempty
    obtain ⟨c, rest, hcs⟩ : ∃ c rest, trimChars s.toList = c :: rest :=
      List.exists_cons_of_length_pos nonempty
    simp [hcs, trimChars_head s.toList c rest hcs]
  have twice : trimChars (trimChars s.toList) = trimChars s.toList := by
    change ((trimChars s.toList).dropWhile isBlank).rdropWhile isBlank = trimChars s.toList
    rw [front]
    exact List.rdropWhile_idempotent isBlank (s.toList.dropWhile isBlank)
  simp [trim, twice]

end Text

namespace Store.Heap

variable {ρ : Type}

/-- A path read one segment further: the last segment is taken, trimmed, from what the part
before the last `.` reads. -/
theorem resolve_append (h : Heap ρ) (v : Value) {parent last : String} (absent : '.' ∉ last.toList) :
    h.resolve v (parent ++ "." ++ last) = h.stepPath (h.resolve v parent) last := by
  have sep : ".".toList = ['.'] := rfl
  rw [resolve_eq_foldl, resolve_eq_foldl, Text.splitChar_append sep absent, List.foldl_append,
    List.foldl_cons, List.foldl_nil]

/-- A path with no `.` is one segment. -/
theorem resolve_of_not_mem (h : Heap ρ) (v : Value) {path : String} (absent : '.' ∉ path.toList) :
    h.resolve v path = h.stepPath v path := by
  rw [resolve_eq_foldl, Text.splitChar_of_not_mem absent]
  rfl

end Store.Heap

namespace Cli

open Store

/-! ## The cuts of an assignment -/

theorem splitAssignment_of_not_mem {text : String} (absent : '=' ∉ text.toList) :
    splitAssignment text = none := by
  simp [splitAssignment, Text.splitChar_of_not_mem absent]

/-- An assignment is cut at its first `=`. -/
theorem splitAssignment_append {rawPath raw : String} (absent : '=' ∉ rawPath.toList) :
    splitAssignment (rawPath ++ "=" ++ raw) = some (rawPath, raw) := by
  have sep : "=".toList = ['='] := rfl
  obtain ⟨x, xs, pieces⟩ := List.exists_cons_of_ne_nil (Text.splitChar_ne_nil raw '=')
  simp only [splitAssignment, Text.splitChar_append_of_not_mem sep absent, pieces]
  rw [← pieces, Text.intercalate_splitChar sep]

theorem splitLastDot_of_not_mem {path : String} (absent : '.' ∉ path.toList) :
    splitLastDot path = none := by
  simp [splitLastDot, Text.splitChar_of_not_mem absent]

/-- A path is cut at its last `.`. -/
theorem splitLastDot_append {parent last : String} (absent : '.' ∉ last.toList) :
    splitLastDot (parent ++ "." ++ last) = some (parent, last) := by
  have sep : ".".toList = ['.'] := rfl
  obtain ⟨x, xs, pieces⟩ := List.exists_cons_of_ne_nil
    (List.reverse_ne_nil_iff.2 (Text.splitChar_ne_nil parent '.'))
  simp only [splitLastDot, Text.splitChar_append sep absent, List.reverse_append, List.reverse_singleton,
    List.singleton_append, pieces]
  rw [← pieces, List.reverse_reverse, Text.intercalate_splitChar sep]

/-! ## The property a path names -/

/-- The own property that a trimmed assignment path names in the data: for a path with a `.`,
the trimmed segment after its last `.` as a key of the object that the part before it resolves
to; for a path without one, the path itself as a key of the data. -/
inductive Names (h : Heap Unit) (data : Nat) : String → Nat → String → Prop
  | nested {parent last : String} {r : Nat} {c : ObjectCell} :
      '.' ∉ last.toList → h.resolve (.object data) parent = .object r → h.object? r = some c →
      c.hasOwn (Text.trim last) = true → Names h data (parent ++ "." ++ last) r (Text.trim last)
  | top {path : String} {c : ObjectCell} :
      '.' ∉ path.toList → h.object? data = some c → c.hasOwn path = true →
      Names h data path data path

theorem hasOwn_of_getD {h : Heap Unit} {r : Nat} {key : String}
    (own : ((h.object? r).map (·.hasOwn key)).getD false = true) :
    ∃ c, h.object? r = some c ∧ c.hasOwn key = true := by
  cases hc : h.object? r with
  | none => simp [hc] at own
  | some c => exact ⟨c, rfl, by simpa [hc] using own⟩

/-- The object and the key an assignment writes are those its path names. -/
theorem target_eq_some_iff {h : Heap Unit} {data r : Nat} {path key : String} :
    target h data path = some (r, key) ↔ Names h data path r key := by
  constructor
  · intro found
    by_cases dotted : '.' ∈ path.toList
    · have sep : ".".toList = ['.'] := rfl
      obtain ⟨parent, last, rfl, absent⟩ := Text.exists_last_cut sep dotted
      simp only [target, splitLastDot_append absent] at found
      split at found
      next r' reads =>
        split at found
        next own =>
          cases found
          obtain ⟨c, hc, has⟩ := hasOwn_of_getD own
          exact .nested absent reads hc has
        next => cases found
      next => cases found
    · simp only [target, splitLastDot_of_not_mem dotted] at found
      split at found
      next own =>
        cases found
        obtain ⟨c, hc, has⟩ := hasOwn_of_getD own
        exact .top dotted hc has
      next => cases found
  · intro names
    cases names with
    | nested absent reads hc own => simp [target, splitLastDot_append absent, reads, hc, own]
    | top absent hc own => simp [target, splitLastDot_of_not_mem absent, hc, own]

/-! ## Running an assignment -/

section Run

variable {data observer : Nat} {records : Array Record} {w : World Unit Unit}

/-- An assignment with no `=` fails with its text and changes nothing. -/
theorem assign_run_of_not_mem {text : String} (absent : '=' ∉ text.toList) :
    (((assign data observer text).run).run records).run w =
      .ok ((.error (.invalidPath text), records), w) := by
  simp [assign, splitAssignment_of_not_mem absent]

/-- An assignment whose path names no property fails with the path and changes nothing. -/
theorem assign_run_of_target_none {rawPath raw : String} (absent : '=' ∉ rawPath.toList)
    (missing : target w.heap data (Text.trim rawPath) = none) :
    (((assign data observer (rawPath ++ "=" ++ raw)).run).run records).run w =
      .ok ((.error (.invalidPath (Text.trim rawPath)), records), w) := by
  simp [assign, splitAssignment_append absent, missing]

/-- Logging records one after another adds them to the log and changes nothing else. -/
theorem run_notes {β : Type} (g : β → Record) (xs : List β) (records : Array Record) :
    (((xs.foldlM (fun _ x => note (g x)) PUnit.unit : SessionM PUnit).run).run records).run w =
      .ok ((.ok (), xs.foldl (fun rs x => rs.push (g x)) records), w) := by
  induction xs generalizing records with
  | nil => rfl
  | cons x xs ih =>
    simp only [List.foldlM_cons, List.foldl_cons]
    exact ih (records.push (g x))

/-- An assignment whose path names a key builds the value, writes it there, and changes nothing
else but the log. -/
theorem assign_run_of_target {rawPath raw : String} {r : Nat} {key : String} {v : Value}
    {w₁ w₂ : World Unit Unit} (absent : '=' ∉ rawPath.toList)
    (found : target w.heap data (Text.trim rawPath) = some (r, key))
    (valued : (assignedValue raw).run w = .ok (v, w₁))
    (written : (setProperty quiet writeFuel r key v).run w₁ = .ok ((), w₂)) :
    ∃ records', (((assign data observer (rawPath ++ "=" ++ raw)).run).run records).run w =
      .ok ((.ok (), records'), w₂) := by
  simp [assign, splitAssignment_append absent, found, liftM, monadLift, MonadLift.monadLift,
    ExceptT.lift, run_changes, valued, written, run_notes]

/-- The value of an assignment: built from the text read as JSON, or the text itself when it is
no JSON. Building it returns, keeps every cell and adds cells that forward nothing. -/
theorem assignedValue_run (raw : String) (w : World Unit Unit) :
    ∃ v w₁, (assignedValue raw).run w = .ok (v, w₁) ∧ w.heap.Grows w₁.heap ∧
      Heap.FewerForwards w.heap w₁.heap ∧
      (∀ j, Json.read raw = .ok j → (ofJson j).run w = .ok (v, w₁)) ∧
      (∀ e, Json.read raw = .error e → v = .string raw ∧ w₁ = w) := by
  cases parsed : Json.read raw with
  | ok j =>
    obtain ⟨v, w₁, run, grows, fewer⟩ := ofJson_extends j w
    refine ⟨v, w₁, by simp [assignedValue, parsed, run], grows, fewer, fun j' same => ?_,
      fun _ impossible => by cases impossible⟩
    cases same
    exact run
  | error e =>
    refine ⟨.string raw, w, by simp [assignedValue, parsed], Heap.Grows.refl _,
      Heap.FewerForwards.refl _, fun j impossible => ?_, fun _ _ => ⟨rfl, rfl⟩⟩
    cases impossible

end Run

theorem Names.lt_size {h : Heap Unit} {data r : Nat} {path key : String}
    (names : Names h data path r key) : r < h.cells.size := by
  cases names with
  | nested _ _ hc _ | top _ hc _ => exact h.lt_of_object? hc

/-- The reactions of a session do nothing. -/
theorem quiet_idle (n : Nat) (s : Unit) (c : Change) (w : World Unit Unit) :
    (quiet n s c).run w = .ok ((), w) := rfl

/-- An assignment `PATH=RAW` writes exactly the property that `PATH` names, or fails and changes
nothing. A text with no `=` fails with the text. Otherwise it is cut at its first `=`, and a path
that names no own property of an object fails with the trimmed path. A path that names one makes
the assignment build the value, the text after the `=` read as JSON or else the text itself, and
write it to that key of that object; in a heap whose forwards stop, the write returns, and in a
heap with no cycle the path then resolves to the value written. -/
theorem assign_writes_named_property (data observer : Nat) (text : String) (records : Array Record)
    (w : World Unit Unit) (stops : w.heap.ForwardsStop) :
    ('=' ∉ text.toList →
      (((assign data observer text).run).run records).run w =
        .ok ((.error (.invalidPath text), records), w)) ∧
    ∀ rawPath raw, '=' ∉ rawPath.toList → text = rawPath ++ "=" ++ raw →
      ((¬∃ r key, Names w.heap data (Text.trim rawPath) r key) →
        (((assign data observer text).run).run records).run w =
          .ok ((.error (.invalidPath (Text.trim rawPath)), records), w)) ∧
      ∀ r key, Names w.heap data (Text.trim rawPath) r key →
        ∃ v w₁ w₂ records',
          (∀ j, Json.read raw = .ok j → (ofJson j).run w = .ok (v, w₁)) ∧
          (∀ e, Json.read raw = .error e → v = .string raw ∧ w₁ = w) ∧
          (setProperty quiet writeFuel r key v).run w₁ = .ok ((), w₂) ∧
          (((assign data observer text).run).run records).run w = .ok ((.ok (), records'), w₂) ∧
          (w.heap.Acyclic → w₂.heap.resolve (.object data) (Text.trim rawPath) = v) := by
  refine ⟨assign_run_of_not_mem, fun rawPath raw absent cut => ?_⟩
  subst cut
  refine ⟨fun unnamed => assign_run_of_target_none absent ?_, fun r key names => ?_⟩
  · -- a path that names nothing has no target
    cases found : target w.heap data (Text.trim rawPath) with
    | none => rfl
    | some target => exact absurd ⟨target.1, target.2, target_eq_some_iff.1 found⟩ unnamed
  -- the value is built, then written where the forwards of the key stop
  obtain ⟨v, w₁, valued, grows, fewer, parsed, fallback⟩ := assignedValue_run raw w
  obtain ⟨e, w₂, leads, settled, written, lands⟩ :=
    setProperty_lands quiet_idle (show 0 < writeFuel by decide) (stops.of_fewer fewer) r key v
  obtain ⟨records', run⟩ := assign_run_of_target absent (target_eq_some_iff.2 names) valued written
  refine ⟨v, w₁, w₂, records', parsed, fallback, written, run, fun ⟨rank, ranked⟩ => ?_⟩
  have inside := names.lt_size
  have reads_back := Lands.get_of_ranked ranked grows fewer lands leads inside settled
  -- the path is read where the assignment cut it
  generalize named : Text.trim rawPath = path at names ⊢
  cases names with
  | nested absent reads _ _ =>
    rw [Heap.resolve_append _ _ absent, Lands.resolve ranked grows fewer lands leads inside reads]
    simpa [Heap.stepPath, Heap.segment] using reads_back
  | top absent _ _ =>
    -- the path is the key itself, trimmed already
    have trimmed : Text.trim key = key := by rw [← named, Text.trim_trim]
    rw [Heap.resolve_of_not_mem _ _ absent]
    simpa [Heap.stepPath, Heap.segment, trimmed] using reads_back

/-- The data `{"a": {"b": null}}` observed at the root by observer `0`: cell `0` holds `a`, and
cell `1` holds `b`. -/
def nestedData : World Unit Unit :=
  ⟨⟨#[.object ⟨[⟨"a", .observed (.object 1), true⟩], some ⟨0, ""⟩⟩,
      .object ⟨[⟨"b", .observed .null, true⟩], some ⟨0, "a"⟩⟩], #[Observer.empty]⟩, ()⟩

/-- `a.b=x` on that data: `x` is no JSON, so the text itself is written, and `a.b` reads it. -/
theorem assign_writes_nested_text :
    nestedData.heap.ForwardsStop ∧ ∃ w₂ records',
      (((assign 0 0 "a.b=x").run).run #[]).run nestedData = .ok ((.ok (), records'), w₂) ∧
      w₂.heap.resolve (.object 0) "a.b" = .string "x" := by
  -- only cell `0` points to a container, cell `1`
  have ranked : nestedData.heap.Ranked fun r => if r = 0 then 1 else 0 := by
    intro r cell t hc points
    rcases r with _ | _ | r
    · simp [nestedData] at hc
      subst hc
      simp [Cell.Points, Cell.values, Slot.value?, Value.ref?] at points
      subst points
      decide
    · simp [nestedData] at hc
      subst hc
      simp [Cell.Points, Cell.values, Slot.value?, Value.ref?] at points
    · simp [nestedData] at hc
  have stops := ranked.forwardsStop
  obtain ⟨-, cut⟩ := assign_writes_named_property 0 0 "a.b=x" #[] nestedData stops
  have names : Names nestedData.heap 0 ("a" ++ "." ++ "b") 1 (Text.trim "b") :=
    .nested (by decide) (by decide) rfl (by decide)
  rw [show "a" ++ "." ++ "b" = Text.trim "a.b" by decide, show Text.trim "b" = "b" by decide] at names
  obtain ⟨v, w₁, w₂, records', -, fallback, -, run, resolved⟩ :=
    (cut "a.b" "x" (by decide) (by decide)).2 1 "b" names
  -- `x` is no JSON
  have text : v = .string "x" := by
    cases read : Json.read "x" with
    | ok j =>
      have failed : (Json.read "x").toOption = none := by decide
      simp [read, Except.toOption] at failed
    | error e => exact (fallback e read).1
  refine ⟨stops, w₂, records', run, ?_⟩
  rw [← text, ← resolved ⟨_, ranked⟩, show Text.trim "a.b" = "a.b" by decide]

end Cli

end ReactiveView
