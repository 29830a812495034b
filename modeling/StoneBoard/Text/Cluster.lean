import StoneBoard.Text.ClusterClass

/-!
# Clusters

The shortest pieces that a reader takes for one character: the extended grapheme clusters of
Unicode.  Whether a character joins the cluster before it depends on that cluster alone.
-/

namespace StoneBoard.Text

namespace Cluster

/-- Whether a cluster, last character first, is a consonant that waits for the other half of
a conjunct. -/
def awaitsConsonant (cluster : List Char) : Bool :=
  (cluster.takeWhile ClusterClass.isInsideConjunct).any ClusterClass.isLinker &&
    (cluster.dropWhile ClusterClass.isInsideConjunct).head?.map ClusterClass.ofChar ==
      some .consonant

/-- Whether a cluster, last character first, is a picture that waits for another one. -/
def awaitsPictograph : List Char → Bool
  | [] => false
  | last :: earlier =>
      ClusterClass.ofChar last == .joiner &&
        (earlier.dropWhile fun character =>
          ClusterClass.ofChar character == .extending).head?.map ClusterClass.ofChar ==
            some .pictograph

/-- Whether a cluster, last character first, ends in one half of a flag. -/
def awaitsRegional (cluster : List Char) : Bool :=
  (cluster.takeWhile fun character =>
    ClusterClass.ofChar character == .regional).length % 2 == 1

/-- Whether a character belongs to the cluster before it.  The cluster is given by its last
character and those before that, last one first. -/
def joins (last : Char) (earlier : List Char) (next : Char) : Bool :=
  let before := ClusterClass.ofChar last
  let after := ClusterClass.ofChar next
  if before.isSeparator || after.isSeparator then
    before == .carriageReturn && after == .lineFeed
  else if after.isAttached || before == .preceding || before.formSyllable after then true
  else
    match after with
    | .consonant => awaitsConsonant (last :: earlier)
    | .pictograph => awaitsPictograph (last :: earlier)
    | .regional => awaitsRegional (last :: earlier)
    | _ => false

/-- The clusters of a text whose first cluster has begun, last character first. -/
def divideFrom (last : Char) (earlier : List Char) : List Char → List (List Char)
  | [] => [(last :: earlier).reverse]
  | next :: rest =>
      if joins last earlier next then divideFrom next (last :: earlier) rest
      else (last :: earlier).reverse :: divideFrom next [] rest

end Cluster

def clusters : List Char → List (List Char)
  | [] => []
  | first :: rest => Cluster.divideFrom first [] rest

end StoneBoard.Text
