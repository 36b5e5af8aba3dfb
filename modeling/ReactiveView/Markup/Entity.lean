/-!
# Character references

Text and attribute values may write characters as references: `&name;` for the six names
`amp`, `lt`, `gt`, `quot`, `apos` and `nbsp`, `&#digits;` in decimal and `&#xdigits;` in
hexadecimal. The number may have a `+` in front and must be a Unicode scalar value below
`2 ^ 32`. A reference is only looked for when its `;` is at most ten bytes after the `&`;
anything that is not a reference stays as written.

`decodeEntities` decodes character by character. `decodeSliced` is the same decoder as the
program writes it, on byte offsets into the UTF-8 encoding of the text: it finds the next `&`
and the next `;` by their offsets and slices the text between offsets, and a slice that does not
start and end on character boundaries inside the text panics (`SlicePanic`).
-/
namespace ReactiveView.Markup

/-- The character a reference name stands for. -/
def namedReference : String → Option Char
  | "amp" => some '&'
  | "lt" => some '<'
  | "gt" => some '>'
  | "quot" => some '"'
  | "apos" => some '\''
  | "nbsp" => some ' '
  | _ => none

/-- The value of a digit in a radix of at most sixteen. -/
def digitIn (radix : Nat) (c : Char) : Option Nat :=
  let v :=
    if c.isDigit then some (c.toNat - '0'.toNat)
    else if 'a' ≤ c ∧ c ≤ 'z' then some (c.toNat - 'a'.toNat + 10)
    else if 'A' ≤ c ∧ c ≤ 'Z' then some (c.toNat - 'A'.toNat + 10)
    else none
  match v with
  | some d => if d < radix then some d else none
  | none => none

/-- A run of digits in a radix, all of them: its value, or `none` for an empty run or a
character that is not a digit. -/
def digitsValue (radix : Nat) : List Char → Option Nat
  | [] => none
  | cs => cs.foldlM (fun acc c => (digitIn radix c).map (acc * radix + ·)) 0

/-- An unsigned 32-bit number in a radix, with an optional `+` in front. -/
def parseWord32 (radix : Nat) (cs : List Char) : Option Nat :=
  let digits := match cs with
    | '+' :: rest => rest
    | _ => cs
  match digitsValue radix digits with
  | some n => if n < Nat.pow 2 32 then some n else none
  | none => none

/-- The character of a Unicode scalar value. -/
def scalar? (n : Nat) : Option Char :=
  if n < 0xD800 ∨ (0xE000 ≤ n ∧ n ≤ 0x10FFFF) then some (Char.ofNat n) else none

/-- The character a reference stands for, given what stands between `&` and `;`. -/
def reference? (name : List Char) : Option Char :=
  match namedReference (String.ofList name) with
  | some c => some c
  | none =>
    match name with
    | '#' :: 'x' :: hex => (parseWord32 16 hex).bind scalar?
    | '#' :: 'X' :: hex => (parseWord32 16 hex).bind scalar?
    | '#' :: dec => (parseWord32 10 dec).bind scalar?
    | _ => none

/-- The characters before the first `;` and what follows it, if there is a `;`. -/
def untilSemicolon : List Char → Option (List Char × List Char)
  | [] => none
  | ';' :: rest => some ([], rest)
  | c :: rest => (untilSemicolon rest).map fun (name, after) => (c :: name, after)

/-- What follows the `;` is shorter than the text searched. -/
theorem untilSemicolon_length : ∀ {cs name after : List Char},
    untilSemicolon cs = some (name, after) → after.length < cs.length
  | [], _, _, h => by simp [untilSemicolon] at h
  | ';' :: rest, _, _, h => by
    simp only [untilSemicolon, Option.some.injEq, Prod.mk.injEq] at h
    obtain ⟨-, rfl⟩ := h
    simp
  | c :: rest, name, after, h => by
    by_cases hc : c = ';'
    · subst hc
      simp only [untilSemicolon, Option.some.injEq, Prod.mk.injEq] at h
      obtain ⟨-, rfl⟩ := h
      simp
    · have h' : (untilSemicolon rest).map (fun (p : List Char × List Char) => (c :: p.1, p.2)) =
          some (name, after) := by
        simpa [untilSemicolon, hc] using h
      obtain ⟨⟨n, a⟩, hr, he⟩ := Option.map_eq_some_iff.mp h'
      simp only [Prod.mk.injEq] at he
      obtain ⟨-, rfl⟩ := he
      have := untilSemicolon_length hr
      simp only [List.length_cons]
      omega

/-- The number of bytes a list of characters takes in UTF-8. -/
def byteLength (cs : List Char) : Nat := cs.foldl (fun n c => n + c.utf8Size) 0

/-- Decode the references of a text given as characters. -/
def decodeChars : List Char → List Char
  | [] => []
  | '&' :: rest =>
    match h : untilSemicolon rest with
    | some (name, after) =>
      have _shorter := untilSemicolon_length h
      if byteLength name + 1 ≤ 10 then
        match reference? name with
        | some c => c :: decodeChars after
        | none => '&' :: decodeChars rest
      else '&' :: decodeChars rest
    | none => '&' :: decodeChars rest
  | c :: rest => c :: decodeChars rest
termination_by cs => cs.length
decreasing_by all_goals (simp only [List.length_cons]; omega)

/-- Decode the character references of a text. -/
def decodeEntities (s : String) : String :=
  String.ofList (decodeChars s.toList)

/-! ## Byte offsets -/

/-- A slice at a byte offset that is not a character boundary of the text, or that lies past
its end: the program panics there. -/
structure SlicePanic where
  offset : Nat
  deriving DecidableEq, Repr

/-- The number of characters before byte `b` of a text, when `b` is a character boundary. -/
def charsBefore? : List Char → Nat → Option Nat
  | _, 0 => some 0
  | [], _ + 1 => none
  | c :: cs, b + 1 =>
    if c.utf8Size ≤ b + 1 then (charsBefore? cs (b + 1 - c.utf8Size)).map (· + 1) else none

/-- The text from byte `b` on. -/
def sliceFrom (cs : List Char) (b : Nat) : Except SlicePanic (List Char) :=
  match charsBefore? cs b with
  | some k => .ok (cs.drop k)
  | none => .error ⟨b⟩

/-- The text before byte `b`. -/
def sliceTo (cs : List Char) (b : Nat) : Except SlicePanic (List Char) :=
  match charsBefore? cs b with
  | some k => .ok (cs.take k)
  | none => .error ⟨b⟩

/-- The text from byte `a` up to byte `b`. -/
def slice (cs : List Char) (a b : Nat) : Except SlicePanic (List Char) :=
  match charsBefore? cs a, charsBefore? cs b with
  | some i, some j => if i ≤ j then .ok ((cs.drop i).take (j - i)) else .error ⟨a⟩
  | none, _ => .error ⟨a⟩
  | some _, none => .error ⟨b⟩

/-- The byte offset of the first occurrence of a character. -/
def byteFind (c : Char) : List Char → Option Nat
  | [] => none
  | x :: xs => if x = c then some 0 else (byteFind c xs).map (x.utf8Size + ·)

/-- A boundary is no further in characters than the text is long. -/
theorem charsBefore?_le : ∀ {cs : List Char} {b k : Nat}, charsBefore? cs b = some k → k ≤ cs.length
  | _, 0, _, found => by
    simp only [charsBefore?, Option.some.injEq] at found
    omega
  | [], _ + 1, _, found => by simp [charsBefore?] at found
  | c :: cs, b + 1, k, found => by
    simp only [charsBefore?] at found
    split at found
    · obtain ⟨j, below, rfl⟩ := Option.map_eq_some_iff.1 found
      simpa using charsBefore?_le below
    · cases found

/-- A boundary after the first byte has a character before it. -/
theorem charsBefore?_pos {cs : List Char} {b k : Nat} (pos : 0 < b)
    (found : charsBefore? cs b = some k) : 0 < k := by
  cases cs with
  | nil =>
    cases b with
    | zero => omega
    | succ b => simp [charsBefore?] at found
  | cons c cs =>
    cases b with
    | zero => omega
    | succ b =>
      simp only [charsBefore?] at found
      split at found
      · obtain ⟨j, -, rfl⟩ := Option.map_eq_some_iff.1 found
        omega
      · cases found

/-- The text after a slice from a byte past the first is shorter. -/
theorem sliceFrom_length {cs rest : List Char} {b : Nat} (sliced : sliceFrom cs b = .ok rest) :
    rest.length ≤ cs.length ∧ (0 < b → rest.length < cs.length) := by
  unfold sliceFrom at sliced
  split at sliced
  · next k found =>
    cases sliced
    have inside := charsBefore?_le found
    refine ⟨by simp, fun pos => ?_⟩
    have := charsBefore?_pos pos found
    simp only [List.length_drop]
    omega
  · cases sliced

/-- What a `&` at the start of `rest` stands for: the character of a reference whose `;` is at
most ten bytes on, with the offset of that `;`; nothing when there is no such reference. -/
def referenceAt (rest : List Char) : Except SlicePanic (Option (Char × Nat)) :=
  match (byteFind ';' rest).filter (· ≤ 10) with
  | some stop => (fun name => (reference? name).map fun c => (c, stop)) <$> slice rest 1 stop
  | none => .ok none

/-- One pass of the decoding loop, at the byte `start` of the first `&` of `rest`: the
characters it writes, and the text left after what it consumed. A reference is written as its
character and consumed up to its `;`; any other `&` is written and consumed as it is. -/
def decodeStep (rest : List Char) (start : Nat) :
    Except SlicePanic (List Char × List Char) := do
  let before ← sliceTo rest start
  let rest ← sliceFrom rest start
  let replacement ← referenceAt rest
  let after ← sliceFrom rest ((replacement.map (·.2 + 1)).getD 1)
  return (before ++ [(replacement.map (·.1)).getD '&'], after)

/-- A computation followed by another gives a result when the first one gave a result that the
second one takes on to it. -/
theorem bind_eq_ok {ε α β : Type} {x : Except ε α} {f : α → Except ε β} {b : β} :
    x >>= f = .ok b ↔ ∃ a, x = .ok a ∧ f a = .ok b := by
  cases x <;> simp [bind, Except.bind]

/-- A pass consumes at least the `&`. -/
theorem decodeStep_shorter {rest written after : List Char} {start : Nat}
    (step : decodeStep rest start = .ok (written, after)) : after.length < rest.length := by
  obtain ⟨_, -, step⟩ := bind_eq_ok.1 step
  obtain ⟨rest', cut, step⟩ := bind_eq_ok.1 step
  obtain ⟨replacement, -, step⟩ := bind_eq_ok.1 step
  obtain ⟨after', consumed, step⟩ := bind_eq_ok.1 step
  cases step
  -- the rest after the pass is sliced from a byte past the `&`
  have past : 0 < (replacement.map (·.2 + 1)).getD 1 := by cases replacement <;> simp
  have shorter := (sliceFrom_length consumed).2 past
  have kept := (sliceFrom_length cut).1
  omega

/-- The decoding loop: everything before the next `&` is kept, the `&` is decoded with what
follows it, and the loop goes on after what that consumed. -/
def decodeLoop (rest : List Char) : Except SlicePanic (List Char) :=
  match byteFind '&' rest with
  | none => .ok rest
  | some start =>
    match step : decodeStep rest start with
    | .ok (written, after) =>
      have _shorter := decodeStep_shorter step
      (written ++ ·) <$> decodeLoop after
    | .error e => .error e
termination_by rest.length
decreasing_by assumption

/-- Decode the character references of a text as the program does, slicing at byte offsets;
a text without `&` is given back as it is. -/
def decodeSliced (s : String) : Except SlicePanic String :=
  if s.toList.contains '&' then String.ofList <$> decodeLoop s.toList else .ok s

end ReactiveView.Markup
