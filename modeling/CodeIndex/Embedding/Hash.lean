import CodeIndex.Digest.Blake3
import CodeIndex.Numeric.Single
import CodeIndex.Text.Blank
import CodeIndex.Text.Casing
import CodeIndex.Text.Letters

/-!
# Embedding by hashed words

Every lower-case word adds one, with a sign, to the place that its hash names; the vector is then brought
to length one. Texts that share words lie close.
-/

namespace CodeIndex.HashEmbedding

def isWordPart (c : Char) : Bool :=
  Text.isAlphanumeric c || c == '_'

def tokens (text : String) : List (List Char) :=
  (Text.fields (!isWordPart ·) (Text.lower text).toList).filter (!·.isEmpty)

/-- The place that a word's hash names among `dimension` ones, and whether it counts down. -/
def placeOf (dimension : Nat) (token : List Char) : Nat × Bool :=
  let h := Blake3.hash (String.ofList token).toUTF8.toList
  (((h.get 0).toNat + (h.get 1).toNat * Nat.pow 2 32) % dimension, (h.get 2).toNat % 2 == 1)

def counts (dimension : Nat) (text : String) : List Single :=
  ((tokens text).foldl (fun v t =>
    let (place, down) := placeOf dimension t
    v.modify place fun x => x.add (if down then Single.one.neg else .one))
    (Array.replicate dimension Single.zero)).toList

/-- The vector of a text, of length one unless no word counts. -/
def embed (dimension : Nat) (text : String) : List Single :=
  let v := counts dimension text
  let norm := (Single.sum (v.map fun x => x.mul x)).sqrt
  if Single.zero.lt norm then v.map (·.div norm) else v

end CodeIndex.HashEmbedding
