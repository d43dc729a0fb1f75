import Crewquarters.Lib.Machine

/-!
# The reviews of a pull request

`_already_reviewed` and `_post` of the PR reviewer over `list_reviews` and `create_review` of the
broker, for one pull request, whose reviews GitHub lists oldest first.
-/

namespace Crewquarters

namespace PrReviews

def filesPageSize : ℕ := 100

def maxReviewPages : ℕ := 3

/-- A review; for the record, the head commit for which the agent created it. -/
structure Review where
  body : List Char
  agentFor : Option (List Char) := none
deriving DecidableEq

def marker (headSha : List Char) : List Char :=
  "<!-- crewquarters-pr-reviewer sha=".toList ++ headSha ++ " -->".toList

/-- `review_body` after its lines. -/
def reviewBody (headSha lines : List Char) : List Char := lines ++ "\n\n".toList ++ marker headSha

/-- The loop of `list_reviews`, with the pages it may still get. -/
def listReviews : ℕ → List Review → List Review
  | 0, _ => []
  | pages + 1, reviews =>
    let batch := reviews.take filesPageSize
    batch ++ if batch.length < filesPageSize then []
      else listReviews pages (reviews.drop filesPageSize)

def alreadyReviewed (headSha : List Char) (reviews : List Review) : Bool :=
  (listReviews maxReviewPages reviews).any fun review => decide (marker headSha <:+: review.body)

/-- What becomes of a post; an unknown one may have been created. -/
inductive Posted where
  | created
  | refused
  | unknown (created : Bool)
deriving DecidableEq

def create (headSha lines : List Char) (posted : Posted) (reviews : List Review) : List Review :=
  if posted = .created ∨ posted = .unknown true then
    reviews ++ [⟨reviewBody headSha lines, some headSha⟩]
  else reviews

/-- A post that is refused is followed by one without inline comments. -/
def post (headSha lines listed : List Char) (first second : Posted) (reviews : List Review) :
    List Review :=
  if first = .refused then create headSha listed second reviews
  else create headSha lines first reviews

inductive Action where
  | other (body : List Char)
  | run (headSha lines listed : List Char) (first second : Posted)

def step : Action → List Review → List Review
  | .other body, reviews => reviews ++ [⟨body, none⟩]
  | .run headSha lines listed first second, reviews =>
    if alreadyReviewed headSha reviews then reviews
    else post headSha lines listed first second reviews

def machine : Machine (List Review) Action := ⟨fun a reviews => some (step a reviews)⟩

end PrReviews

end Crewquarters
