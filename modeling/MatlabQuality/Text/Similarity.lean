import MatlabQuality.Number.Binary64

/-!
# Similar words

The Jaro similarity of two words: how many of their characters match at nearly the same place, and
how many of the matches are out of order.

## Main definitions

* `matchPlaces` — where the characters of one word match those of another.
* `similarity` — the similarity, from nought to one.
-/

namespace MatlabQuality.Text

open MatlabQuality.Number

/-- For each character from place `i` on, the first place of the other word within `reach` of it
that holds the same character and is not taken. -/
def matchPlaces (reach : Nat) (word : List Char) (i : Nat) (taken : List Nat) :
    List Char → List (Char × Nat)
  | [] => []
  | c :: rest =>
    let free := (List.range word.length).find? fun j =>
      i ≤ j + reach && j ≤ i + reach && word[j]? == some c && !taken.contains j
    match free with
    | some j => (c, j) :: matchPlaces reach word (i + 1) (j :: taken) rest
    | none => matchPlaces reach word (i + 1) taken rest

/-- Half the number of matches that are out of order. -/
def transpositions (places : List (Char × Nat)) : Nat :=
  let ordered := places.mergeSort fun a b => a.2 ≤ b.2
  ((places.zip ordered).countP fun (a, b) => a.1 != b.1) / 2

/-- The Jaro similarity of two words that are not empty. -/
def similarity (a b : List Char) : Binary64 :=
  let reach := max a.length b.length / 2 - 1
  let places := matchPlaces reach b 0 [] a
  let m := Binary64.ofNat places.length
  let ordered := Binary64.ofNat (places.length - transpositions places)
  if places.isEmpty then 0
  else
    let shares := (m.div (.ofNat a.length)).sub (m.div (.ofNat b.length)).neg
    (shares.sub (ordered.div m).neg).div 3

end MatlabQuality.Text
