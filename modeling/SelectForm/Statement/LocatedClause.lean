import SelectForm.Statement.Cursor
import SelectForm.Statement.Lists

/-!
# The clauses of a statement

A statement falls into its clauses at keywords that stand in code and outside
parentheses.  Each keyword may come once and the clauses must keep their order;
`LIMIT` and `OFFSET` make one clause, in any order.  FROM must be there, and no
clause but the last may be empty.
-/

namespace SelectForm

/-- A clause with its keyword and what is behind it.  The body of LIMIT and OFFSET
begins with the keyword. -/
structure LocatedClause where
  clause : Clause
  keyword : Fragment
  body : Fragment
deriving DecidableEq, Repr

namespace LocatedClause

/-- Finds the keywords of clauses, each with its name and its clause. -/
def finder : Finder (String × Clause) :=
  .ofKeywords
    ([(.select, .select), (.from_, .from_), (.where_, .where_), (.groupBy, .groupBy),
        (.having, .having), (.orderBy, .orderBy), (.limit, .paging),
        (.offset, .paging)].map
      fun (keyword, clause) => (keyword, (keyword.name, clause)))

/-- The clause that a keyword opens. -/
def ofSegment (segment : Segment (String × Clause)) : LocatedClause where
  clause := segment.label.2
  keyword := segment.mark
  body :=
    if segment.label.2 = .paging then segment.mark.append segment.body else segment.body

/-- Adds the clauses of some keywords to the clauses that come before them, which are
given in reverse; `seen` holds the names of the keywords before. -/
def collect (seen : List String) (before : List LocatedClause) :
    List (Segment (String × Clause)) → Except ParseError (List LocatedClause)
  | [] => .ok before.reverse
  | segment :: rest =>
    let (name, clause) := segment.label
    let located := ofSegment segment
    let fail (cause : ParseError.Cause) : Except ParseError (List LocatedClause) :=
      .error (segment.mark.error cause (some clause))
    if seen.contains name then
      fail (.repeatedClause name)
    else
      match before with
      | last :: earlier =>
        if clause = .paging ∧ last.clause = .paging then
          collect (name :: seen) ({ last with body := last.body.append located.body } :: earlier)
            rest
        else if clause.rank ≤ last.clause.rank then
          fail (.misplacedClause name)
        else if located.body.isBlank then
          fail (.emptyClause name)
        else
          collect (name :: seen) (located :: before) rest
      | [] =>
        if located.body.isBlank then
          fail (.emptyClause name)
        else
          collect (name :: seen) [located] rest

/-- The clauses of a statement, in order. -/
def locate (text : Text) : Except ParseError (List LocatedClause) := do
  let statement := (Fragment.mk text 0).skipAsciiBlanks
  match Keyword.select.length? none statement.text.cells with
  | none =>
    let word : Fragment :=
      ⟨statement.text.takeWhile fun c => !Text.isAsciiBlank c, statement.start⟩
    .error (word.error .notSelect none)
  | some _ =>
    let clauses ← collect [] [] (statement.segment finder).tail
    if clauses.any fun located => located.clause = .from_ then
      .ok clauses
    else
      .error ((Fragment.mk (Text.trimEnd text) 0).error .missingFrom none)

/-- Locates the clauses of the statement at a cursor, with offsets that count from the
beginning of its text.  The cursor moves to the end only if that succeeds. -/
def read : Reader (List LocatedClause) := fun cursor =>
  let start := cursor.skipBlanks
  if start.compare .select then
    let keywords := Segmentation.ofCells finder start.ahead.before start.ahead.cells start.position
    match collect [] [] keywords.tail with
    | .error error => (.error (error.shift start.offset), start)
    | .ok clauses =>
      if clauses.any fun located => located.clause = .from_ then
        (.ok clauses, { start.finish with clause := none })
      else
        let statement : Fragment := ⟨Text.trimEnd start.text, start.absolute 0⟩
        (.error (statement.error .missingFrom none), start)
  else
    let stopped := (start.jump start.ahead.cut).skipWhile fun c => !Text.isAsciiBlank c
    let word : Fragment := ⟨stopped.since start.position, start.absolute start.position⟩
    (.error (word.error .notSelect none), stopped)

end LocatedClause

end SelectForm
