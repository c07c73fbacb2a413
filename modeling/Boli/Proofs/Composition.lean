import Boli.Proofs.Seams
import Boli.Proofs.Shifting

/-!
# One program behind another

The bodies of two programs, one below the other, are the body of a program.  Its statements are
those of the first and then those of the second, some lines further down.  It does what the two do
in turn, where the second one runs only if the first comes to its end.

Nothing of the first body reaches into the second.  A comment that is open at its end would swallow
the closing marker.  A choice at its end takes no alternative from the second body, since no
statement starts with one.

* `Program.enclosed` puts a text between the markers.
* `IsBody` says that the text reads as some statements there.
* `Session.runInTurn` runs two programs one after the other.
* `Session.runWithin_composed` is the result.
-/

namespace Boli

open Boli.Grammar

/-- The source of a program with the given text between its markers. -/
def Program.enclosed (body : String) : String := "chala suru karu;\n" ++ body ++ "\nbas re ata;"

/-! ## The tokens of an enclosed text -/

namespace Token

/-- The tokens in front of a body. -/
def opening : List Token :=
  [⟨.start, "chala suru karu", ⟨1, 1⟩⟩, ⟨.symbol .semicolon, ";", ⟨1, 16⟩⟩]

/-- The tokens behind a body whose last line is the given one. -/
def closing (line : Int) : List Token :=
  [⟨.finish, "bas re ata", ⟨1 + line, 1⟩⟩, ⟨.symbol .semicolon, ";", ⟨1 + line, 11⟩⟩,
    endAt ⟨1 + line, 12⟩]

/-- The position where a body starts. -/
def bodyStart : Position := ⟨2, 1⟩

/-- The first marker and its semicolon are two tokens on the first line. -/
theorem scan_opening :
    scan 0 none .first "chala suru karu;".toList = .ok (opening ++ [endAt ⟨1, 17⟩]) := by
  decide

/-- The last marker has a line of its own. -/
theorem scan_closing (p : Position) :
    scan 0 (some '\n') (p.after '\n') "bas re ata;".toList = .ok (closing p.line) := by
  have hfirst : scan 0 (some '\n') .first "bas re ata;".toList = .ok
      [⟨.finish, "bas re ata", ⟨1, 1⟩⟩, ⟨.symbol .semicolon, ";", ⟨1, 11⟩⟩, endAt ⟨1, 12⟩] := by
    decide
  have hp : p.after '\n' = Position.first.shifted p.line := by
    rw [Position.shifted, Int.add_comm]
    rfl
  rw [hp, scan_shifted p.line hfirst]
  rfl

theorem toList_enclosed (body : String) : (Program.enclosed body).toList =
    "chala suru karu;".toList ++ '\n' :: (body.toList ++ '\n' :: "bas re ata;".toList) := by
  have hfront : "chala suru karu;\n".toList = "chala suru karu;".toList ++ ['\n'] := by
    decide
  have hback : "\nbas re ata;".toList = '\n' :: "bas re ata;".toList := by decide
  have hparts : (Program.enclosed body).toList =
      "chala suru karu;\n".toList ++ body.toList ++ "\nbas re ata;".toList := by
    unfold Program.enclosed
    simp only [String.toList_append]
  rw [hparts, hfront, hback]
  simp only [List.append_assoc, List.cons_append, List.nil_append]

/-- An enclosed text has tokens if the text has, and they stand between those of the markers. -/
theorem ofText_enclosed (body : String) :
    ofText (Program.enclosed body) =
      (scan 0 (some '\n') bodyStart body.toList).bind fun tokens =>
        .ok (opening ++ (tokens.dropLast ++ closing (bodyStart.afterAll body.toList).line)) := by
  have hstart : (Position.first.afterAll "chala suru karu;".toList).after '\n' = bodyStart := by
    decide
  have hopen : ¬['*', '/'] <:+: "bas re ata;".toList := by decide
  rw [ofText, toList_enclosed, scan_append_feed_of_ok scan_opening, hstart,
    scan_append_feed (Nat.zero_le _) fun hclosed => absurd hclosed hopen, scan_closing]
  cases scan 0 (some '\n') bodyStart body.toList <;> rfl

end Token

/-! ## Bodies -/

/-- Between the markers, the text reads as the statements. -/
def IsBody (text : String) (ss : List Stmt) : Prop :=
  ∃ ts q, Token.scan 0 (some '\n') Token.bodyStart text.toList = .ok (ts ++ [Token.endAt q]) ∧
    Builds (.stmts ss) ts

/-- A program is made of the tokens of the markers and of statements between them. -/
theorem isProgram_between {p : Program} {ts : List Token} {line : Int} :
    IsProgram p (Token.opening ++ (ts ++ Token.closing line)) ↔
      ∃ ss, p = .mk (some 1) ss ∧ Builds (.stmts ss) ts := by
  constructor
  · intro h
    generalize htokens : Token.opening ++ (ts ++ Token.closing line) = tokens at h
    cases h with
    | @mk ss us t u f w z ht hu hb hf hw hz =>
      obtain ⟨rfl, htail⟩ := List.cons.inj htokens
      have hbody : ts ++ Token.closing line = us ++ [f, w, z] := (List.cons.inj htail).2
      obtain ⟨rfl, _⟩ := List.append_inj' hbody rfl
      exact ⟨ss, rfl, hb⟩
  · rintro ⟨ss, rfl, hb⟩
    rw [Token.opening, Token.closing, List.cons_append, List.singleton_append]
    refine .mk (t := ⟨.start, "chala suru karu", ⟨1, 1⟩⟩) ?_ ?_ hb ?_ ?_ ?_ <;> rfl

/-- An enclosed text is a program if the text is a body. -/
theorem ofText_enclosed_iff {body : String} {p : Program} :
    Program.ofText (Program.enclosed body) = .ok p ↔
      ∃ ss, p = .mk (some 1) ss ∧ IsBody body ss := by
  rw [ofText_eq_ok]
  constructor
  · rintro ⟨tokens, htokens, hp⟩
    have hprogram := isProgram_of_ofTokens htokens hp
    rw [Token.ofText_enclosed] at htokens
    cases hscan : Token.scan 0 (some '\n') Token.bodyStart body.toList with
    | error e =>
      rw [hscan] at htokens
      cases htokens
    | ok us =>
      rw [hscan] at htokens
      obtain ⟨ts, q, rfl, _⟩ := Token.fits_of_scan hscan
      cases htokens
      rw [List.dropLast_concat] at hprogram
      obtain ⟨ss, rfl, hb⟩ := isProgram_between.1 hprogram
      exact ⟨ss, rfl, ts, q, hscan, hb⟩
  · rintro ⟨ss, rfl, ts, q, hscan, hb⟩
    have htokens := Token.ofText_enclosed body
    rw [hscan] at htokens
    refine ⟨_, htokens, ofTokens_of_isProgram ?_⟩
    rw [List.dropLast_concat]
    exact isProgram_between.2 ⟨ss, rfl, hb⟩

/-- Statements behind statements are statements. -/
theorem builds_append {ss ss' : List Stmt} {ts us : List Token} (h : Builds (.stmts ss) ts)
    (h' : Builds (.stmts ss') us) : Builds (.stmts (ss ++ ss')) (ts ++ us) := by
  induction ss generalizing ts with
  | nil =>
    cases h
    exact h'
  | cons s ss ih =>
    cases h with
    | more hs hss =>
      rw [List.append_assoc]
      exact .more hs (ih hss)

/-- Two bodies with a line feed between them are a body. -/
theorem isBody_append {a b : String} {ss ss' : List Stmt} (ha : IsBody a ss) (hb : IsBody b ss') :
    IsBody (a ++ "\n" ++ b)
      (ss ++ ss'.map (Stmt.rewritten (.shifting (a.toList.count '\n' + 1)))) := by
  obtain ⟨ts, q, hts, hss⟩ := ha
  obtain ⟨us, q', hus, hss'⟩ := hb
  have hchars : (a ++ "\n" ++ b).toList = a.toList ++ '\n' :: b.toList := by
    rw [String.toList_append, String.toList_append, List.append_assoc]
    rfl
  generalize hk : (a.toList.count '\n' + 1 : Int) = k
  have hstart : (Token.bodyStart.afterAll a.toList).after '\n' = Token.bodyStart.shifted k := by
    show (⟨(Token.bodyStart.afterAll a.toList).line + 1, 1⟩ : Position) = _
    rw [Position.line_afterAll, Int.add_assoc, hk]
    rfl
  have hbuilds := builds_append hss (builds_shifted (k := k) hss')
  rw [Stmt.rewrittenAll_eq_map] at hbuilds
  refine ⟨ts ++ us.map (Token.shifted k), q'.shifted k, ?_, hbuilds⟩
  rw [hchars, Token.scan_append_feed_of_ok hts, hstart, Token.scan_shifted k hus, List.map_append,
    List.append_assoc]
  rfl

/-! ## Runs -/

namespace Action

/-- Statements in sequence run in turn, and a stop ends them all. -/
theorem topLevel_append (run : Stmt → Action Signal) (ss ss' : List Stmt) (m : Machine) :
    topLevel run (ss ++ ss') m =
      match topLevel run ss m with
      | .ok _ m' => topLevel run ss' m'
      | .error e m' => .error e m' := by
  induction ss generalizing m with
  | nil => rfl
  | cons s ss ih =>
    simp only [List.cons_append, topLevel, bind, EStateM.bind]
    cases run s m with
    | error e m₁ => rfl
    | ok signal m₁ =>
      dsimp only
      cases signal.jump? with
      | some jump => rfl
      | none => exact ih m₁

end Action

namespace Session

/-- Runs the first program and then, if it came to its end, the second on the machine it left. -/
def runInTurn (fuel : Nat) (settings : Settings) (p q : Program) (m : Machine) :
    Completion × Machine :=
  match runWithin fuel settings p m with
  | (.completed, m') => runWithin fuel settings q m'
  | stopped => stopped

/-- Statements in one program do what they do in two programs in turn. -/
theorem runWithin_append (fuel : Nat) (settings : Settings) (line line' : Line)
    (ss ss' : List Stmt) (m : Machine) :
    runWithin fuel settings (.mk line (ss ++ ss')) m =
      runInTurn fuel settings (.mk line ss) (.mk line' ss') m := by
  unfold runInTurn runWithin runBy
  simp only [Block.statements, Action.topLevel_append]
  cases Action.topLevel (Action.exec settings.coerce fuel globalScope) ss m with
  | ok u m₁ => rfl
  | error e m₁ => cases e <;> rfl

/-- The lines of the second program matter to messages only. -/
theorem runInTurn_of_unlined_eq {q q' : Program} (h : q.unlined = q'.unlined) (fuel : Nat)
    (settings : Settings) (p : Program) (m : Machine) :
    SameButLines (runInTurn fuel settings p q m) (runInTurn fuel settings p q' m) := by
  unfold runInTurn
  obtain ⟨completion, m₁⟩ := runWithin fuel settings p m
  cases completion with
  | completed => exact sameButLines_of_unlined_eq h fuel settings m₁
  | _ => exact .refl _

/-- Two programs whose bodies stand one below the other in a third: it can be read, its statements
are those of the first and those of the second further down, and it does what the two do in turn.
Only the lines of the second differ. -/
theorem runWithin_composed {a b : String} {p q : Program}
    (hp : Program.ofText (Program.enclosed a) = .ok p)
    (hq : Program.ofText (Program.enclosed b) = .ok q) :
    ∃ r, Program.ofText (Program.enclosed (a ++ "\n" ++ b)) = .ok r ∧
      r.statements = p.statements ++
        q.statements.map (Stmt.rewritten (.shifting (a.toList.count '\n' + 1))) ∧
      ∀ fuel settings m,
        SameButLines (runWithin fuel settings r m) (runInTurn fuel settings p q m) := by
  obtain ⟨ss, rfl, ha⟩ := ofText_enclosed_iff.1 hp
  obtain ⟨ss', rfl, hb⟩ := ofText_enclosed_iff.1 hq
  refine ⟨_, ofText_enclosed_iff.2 ⟨_, rfl, isBody_append ha hb⟩, rfl, fun fuel settings m => ?_⟩
  rw [runWithin_append fuel settings (some 1) (some 1)]
  refine runInTurn_of_unlined_eq ?_ fuel settings _ m
  rw [← Stmt.rewrittenAll_eq_map]
  exact Block.unlined_shifted (.mk (some 1) ss')

/-- A body that ends with a choice. -/
def choosing : String := "heAhe x = \"a\";\njar (khara) \x7b dakhava x; \x7d"

/-- The program with that body. -/
def choosingProgram : Program :=
  .mk (some 1) [.declare (some 2) "x" (some (.literal (some 2) (.text "a") "a")),
    .branch (some 3) (.literal (some 3) (.boolean true) "khara")
      (.block (.mk (some 3) [.print (some 3) [.name (some 3) "x"]])) none]

/-- A body that goes on with the variable and then asks for an unknown one. -/
def asking : String := "dakhava x;\ny;"

/-- The program with that body. -/
def askingProgram : Program :=
  .mk (some 1) [.print (some 2) [.name (some 2) "x"], .expression (some 3) (.name (some 3) "y")]

theorem runWithin_composed_choosing :
    Program.ofText (Program.enclosed choosing) = .ok choosingProgram ∧
      Program.ofText (Program.enclosed asking) = .ok askingProgram ∧
      ∃ r, Program.ofText (Program.enclosed (choosing ++ "\n" ++ asking)) = .ok r ∧
        r.statements = choosingProgram.statements ++ askingProgram.statements.map
          (Stmt.rewritten (.shifting (choosing.toList.count '\n' + 1))) ∧
        ∀ fuel settings m, SameButLines (runWithin fuel settings r m)
          (runInTurn fuel settings choosingProgram askingProgram m) := by
  have hchoosing : Program.ofText (Program.enclosed choosing) = .ok choosingProgram := by
    have htext : Program.enclosed choosing = "chala suru karu;\nheAhe x = \"a\";\n" ++
        "jar (khara) \x7b dakhava x; \x7d\nbas re ata;" := by
      decide +kernel
    rw [htext]
    cbv
  have hasking : Program.ofText (Program.enclosed asking) = .ok askingProgram := by
    have htext : Program.enclosed asking = "chala suru karu;\ndakhava x;\ny;\nbas re ata;" := by
      decide +kernel
    rw [htext]
    cbv
  exact ⟨hchoosing, hasking, runWithin_composed hchoosing hasking⟩

end Session

end Boli
