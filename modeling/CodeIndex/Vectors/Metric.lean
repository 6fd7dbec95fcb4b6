import CodeIndex.Numeric.Single

/-!
# Distances between vectors

All sums are single precision, from left to right.
-/

namespace CodeIndex.Vectors

inductive Metric where
  /-- One minus the cosine of the angle. -/
  | cosine
  /-- The length of the difference. -/
  | euclidean
  deriving DecidableEq, Repr, Inhabited

namespace Metric

def text : Metric → String
  | .cosine => "cosine"
  | .euclidean => "euclidean"

/-- The metric of a name in either case of letters. -/
def ofName? (name : String) : Option Metric :=
  match name.map Char.toLower with
  | "cosine" => some .cosine
  | "euclidean" | "l2" => some .euclidean
  | _ => none

def norm (v : List Single) : Single :=
  (Single.sum (v.map fun x => x.mul x)).sqrt

/-- Zero as soon as one of the vectors has no length. -/
def cosineSimilarity (v w : List Single) : Single :=
  let dot := Single.sum (List.zipWith Single.mul v w)
  if (norm v).isZero || (norm w).isZero then .zero else dot.div ((norm v).mul (norm w))

/-- The distance of two vectors, as far as the shorter one goes. -/
def distance (m : Metric) (v w : List Single) : Single :=
  match m with
  | .cosine => Single.one.sub (cosineSimilarity v w)
  | .euclidean =>
    (Single.sum (List.zipWith (fun x y => let d := x.sub y; d.mul d) v w)).sqrt

/-- A distance as a score from 0 to 1; the closer, the higher. -/
def score (m : Metric) (d : Single) : Single :=
  if d.isNaN then .zero
  else match m with
    | .cosine =>
      let s := Single.one.sub d
      if s.lt .zero then .zero else if Single.one.lt s then .one else s
    | .euclidean => Single.one.div (Single.one.add (if Single.zero.lt d then d else .zero))

end Metric

end CodeIndex.Vectors
