/-!
# Similar names

When a command line names a subcommand or an option that does not exist, the names that are
close to it are offered instead. Closeness is the Jaro similarity: with `m` characters of the
two words that match (equal characters, each used once, at most `max(|a|, |b|) / 2 - 1` places
apart) and `t` half the number of matched pairs that stand in a different order, it is
`(m / |a| + m / |b| + (m - t) / m) / 3`, or zero without matches.

Similarities are kept as exact fractions, so that comparing two of them, or one with the
threshold `0.7`, is exact.
-/
namespace ReactiveView.Cli

/-- A similarity as a fraction `num / den` with `0 < den`. -/
structure Similarity where
  num : Nat
  den : Nat
  deriving Repr, Inhabited

namespace Similarity

/-- Whether one similarity is below another. -/
def lt (a b : Similarity) : Bool := a.num * b.den < b.num * a.den

/-- Whether a similarity is above `0.7`. -/
def likely (a : Similarity) : Bool := 10 * a.num > 7 * a.den

end Similarity

/-- Match the characters of `a`, in order, each with the first unused equal character of `b`
within the window; the flags say which characters of `b` are used, and the result lists the
matched characters of `a`. -/
def matchChars (b : List Char) (window : Nat) :
    Nat → List Char → List Bool → List Char → List Bool × List Char
  | _, [], used, acc => (used, acc.reverse)
  | i, c :: rest, used, acc =>
    let lo := i - window
    let hi := min b.length (i + window + 1)
    let slot := ((List.range hi).filter fun j => lo ≤ j && b[j]? == some c && used[j]? == some false).head?
    match slot with
    | some j => matchChars b window (i + 1) rest (used.set j true) (c :: acc)
    | none => matchChars b window (i + 1) rest used acc

/-- The Jaro similarity of two words. -/
def jaro (a b : String) : Similarity :=
  let as := a.toList
  let bs := b.toList
  if as.isEmpty && bs.isEmpty then ⟨1, 1⟩
  else if as.isEmpty || bs.isEmpty then ⟨0, 1⟩
  else
    let window := max as.length bs.length / 2 - 1
    let (used, matchedA) := matchChars bs window 0 as (List.replicate bs.length false) []
    let matchedB := (bs.zip used).filterMap fun (c, u) => if u then some c else none
    let m := matchedA.length
    if m = 0 then ⟨0, 1⟩
    else
      let t := ((matchedA.zip matchedB).filter fun (x, y) => x != y).length / 2
      let la := as.length
      let lb := bs.length
      ⟨m * lb * m + m * la * m + (m - t) * la * lb, 3 * la * lb * m⟩

/-- Insert into a list sorted by similarity, after the entries that are not above it. -/
def insertBySimilarity (x : Similarity × String) : List (Similarity × String) → List (Similarity × String)
  | [] => [x]
  | y :: ys => if x.1.lt y.1 then x :: y :: ys else y :: insertBySimilarity x ys

/-- The candidates more than `0.7` similar to a word, least similar first; candidates equally
similar keep their order. -/
def similarNames (word : String) (candidates : List String) : List String :=
  let scored := candidates.filterMap fun c =>
    let s := jaro word c
    if s.likely then some (s, c) else none
  (scored.foldl (fun acc x => insertBySimilarity x acc) []).map (·.2)

end ReactiveView.Cli
