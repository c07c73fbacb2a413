import Boli.Proofs.ProgramGrammar

/-!
# Readings in tandem

When a reading fails, the tokens up to the one that it complains about could have gone on to a program,
and with that token they could not.  Both facts are about other token lists than the one at hand,
which begin in the same way.  So the reading is compared with another one, from a cursor that has the
same tokens in front of it up to a point (`Parser.Tandem`).

* As long as the tokens are the same, both readings take the same steps.
* A token that stops the first reading stops the second one too.
* The tokens in front of it can be completed.

Loops and nested readings carry fuel, which differs between the two cursors.  All that counts is that
there is enough of it, which `Cursor.Within` keeps track of.
-/

namespace Boli

open Grammar

namespace Cursor

/-! ## Cursors near the end -/

/-- The tokens close with the mark of the end, and fewer than `n` of them stand behind the current
one. -/
structure Within (c : Cursor) (n : Nat) : Prop where
  ended : c.Ended
  lt : c.remaining < n

namespace Within

variable {c c' : Cursor} {n m : Nat} {ts : List Token}

theorem of_ended (h : c.Ended) : c.Within (c.remaining + 1) :=
  ⟨h, Nat.lt_succ_self _⟩

theorem mono (h : c.Within n) (hle : n ≤ m) : c.Within m :=
  ⟨h.ended, Nat.lt_of_lt_of_le h.lt hle⟩

theorem not_zero : ¬c.Within 0 :=
  fun h => Nat.not_lt_zero _ h.lt

/-- Behind a stretch, fewer tokens are left. -/
theorem passes (h : c.Within n) (hpass : c.Passes ts c') : c'.Within (n - ts.length) := by
  refine ⟨hpass.ended h.ended, ?_⟩
  have hlt := h.lt
  have hremaining := hpass.remaining_eq
  omega

theorem advance (h : c.Within n) (hk : c.current.kind ≠ .eof) : c.advance.Within (n - 1) :=
  h.passes (passes_advance h.ended hk)

/-- A token that is not the mark of the end has another one behind it. -/
theorem one_lt (h : c.Within n) (hk : c.current.kind ≠ .eof) : 1 < n := by
  have hlt := h.lt
  have hremaining := (passes_advance h.ended hk).remaining_eq
  rw [List.length_singleton] at hremaining
  omega

/-- Where no other token follows, the mark of the end stands. -/
theorem eof_of_one (h : c.Within 1) : c.current.kind = .eof := by
  by_contra hne
  exact Nat.lt_irrefl 1 (h.one_lt hne)

end Within

namespace Passes

theorem unique {c c' : Cursor} {ts us : List Token} (h : c.Passes ts c') (h' : c.Passes us c') :
    ts = us :=
  List.append_cancel_right (h.rest_eq.symm.trans h'.rest_eq)

end Passes

/-- Cursors that have the same tokens in front of them up to some token start with the same one. -/
theorem current_eq_of_rest {c d : Cursor} {t : Token} {ts us vs : List Token}
    (hc : c.rest = ts ++ t :: us) (hd : d.rest = ts ++ t :: vs) : d.current = c.current := by
  cases ts with
  | nil => exact (List.cons.inj hd).1.trans (List.cons.inj hc).1.symm
  | cons u ts => exact (List.cons.inj hd).1.trans (List.cons.inj hc).1.symm

end Cursor

/-! ## The token that does not fit -/

/-- The complaint comes behind the token that it is about. -/
def Complaint.isLate : Complaint → Bool
  | duplicateParameter _ | notANumber _ => true
  | _ => false

/-- The complaint is about a function of the language that is not called. -/
def ParseError.IsUncalled (e : ParseError) (c : Cursor) : Prop :=
  e.complaint = .expected .expression ∧ ∃ b, (c.current.kind, b) ∈ builtins

/-- A reading from `c` has failed at `c'`, since the token `bad` does not fit behind the tokens
`good`. -/
inductive Faults (e : ParseError) (c c' : Cursor) : List Token → Token → Prop where
  /-- It is the token at the cursor. -/
  | here (h : c.Passes good c') (hlate : e.complaint.isLate = false) (hcall : ¬e.IsUncalled c')
    (hposition : e.position = c'.current.position) : Faults e c c' good c'.current
  /-- It was taken already. -/
  | behind (h : c.Passes (good ++ [bad]) c') (hlate : e.complaint.isLate = true)
    (hposition : e.position = bad.position) : Faults e c c' good bad
  /-- It is the token behind the one at the cursor, which is complained about in its place. -/
  | ahead (h : c.Passes good c') (hrest : c'.rest = t :: bad :: rest) (hcall : e.IsUncalled c')
    (hbad : bad.kind ≠ .symbol .openParen) (hposition : e.position = t.position) :
    Faults e c c' (good ++ [t]) bad

namespace Faults

variable {e : ParseError} {c c₁ c' : Cursor} {good good' : List Token} {bad bad' : Token}

/-- The token that does not fit stands behind the tokens that do. -/
theorem exists_rest (h : Faults e c c' good bad) : ∃ rest, c.rest = good ++ bad :: rest := by
  cases h with
  | here h => exact ⟨_, h.rest_eq⟩
  | behind h => exact ⟨c'.rest, by rw [h.rest_eq, List.append_assoc]; rfl⟩
  | ahead h hrest => exact ⟨_, by rw [h.rest_eq, hrest, List.append_assoc]; rfl⟩

/-- What is at fault behind a stretch is at fault from its start on. -/
theorem trans {ts : List Token} (h : c.Passes ts c₁) (h' : Faults e c₁ c' good bad) :
    Faults e c c' (ts ++ good) bad := by
  cases h' with
  | here h' hlate hcall hposition => exact .here (h.trans h') hlate hcall hposition
  | behind h' hlate hposition =>
    refine .behind ?_ hlate hposition
    rw [List.append_assoc]
    exact h.trans h'
  | ahead h' hrest hcall hbad hposition =>
    rw [← List.append_assoc]
    exact .ahead (h.trans h') hrest hcall hbad hposition

/-- The error and the cursor tell which token does not fit. -/
theorem unique (h : Faults e c c' good bad) (h' : Faults e c c' good' bad') :
    good = good' ∧ bad = bad' := by
  have hlate : ∀ {c : Cursor}, e.IsUncalled c → e.complaint.isLate = true → False := by
    rintro c ⟨heq, _⟩ hlate
    rw [heq] at hlate
    cases hlate
  cases h with
  | here h hfalse hnot =>
    cases h' with
    | here h' => exact ⟨h.unique h', rfl⟩
    | behind _ htrue => exact absurd (hfalse.symm.trans htrue) nofun
    | ahead _ _ hcall => exact absurd hcall hnot
  | behind h htrue =>
    cases h' with
    | here _ hfalse => exact absurd (hfalse.symm.trans htrue) nofun
    | behind h' =>
      obtain ⟨rfl, heq⟩ := List.append_inj' (h.unique h') rfl
      exact ⟨rfl, (List.cons.inj heq).1⟩
    | ahead _ _ hcall => exact (hlate hcall htrue).elim
  | ahead h hrest hcall =>
    cases h' with
    | here _ _ hnot => exact absurd hcall hnot
    | behind _ htrue => exact (hlate hcall htrue).elim
    | ahead h' hrest' =>
      obtain ⟨rfl, heq⟩ := List.cons.inj (hrest.symm.trans hrest')
      exact ⟨congrArg (· ++ _) (h.unique h'), (List.cons.inj heq).1⟩

end Faults

/-- Every phrase of the language can be completed. -/
def Completes {α : Type} (V : List Token → Prop) (L : α → List Token → Prop) : Prop :=
  ∀ a ts, L a ts → ∃ more, V (ts ++ more)

namespace Parser

variable {α β : Type} {V : List Token → Prop} {n m : Nat} {p q : Parser α} {c : Cursor}

theorem bind_of_error {f : α → Parser β} {c' : Cursor} {e : ParseError} (h : p c = .error e c') :
    (p >>= f) c = .error e c' := by
  show EStateM.bind p f c = _
  rw [EStateM.bind, h]

/-- A token of another kind is complained about. -/
theorem demand_of_ne {k : Kind} {complaint : Complaint} (h : c.current.kind ≠ k) :
    demand k complaint c = .error ⟨complaint, c.current.position⟩ c := by
  rw [demand, bind_of_ok (isAt_eq_ok.2 ⟨rfl, rfl⟩), if_neg (by simpa using h)]
  rfl

/-- The first reading from `c` and the second one, from any cursor with the same tokens in front of
it, go the same way.  Where the first one fails, the second one does not succeed, and `V` holds of
some completion of the tokens in front of the one that does not fit. -/
def Tandem (V : List Token → Prop) (m : Nat) (p q : Parser α) (c : Cursor) : Prop :=
  match p c with
  | .ok a c' => ∃ ts, c.Passes ts c' ∧ ∀ d us, d.Within m → d.rest = ts ++ c'.current :: us →
    ∃ d', q d = .ok a d' ∧ d.Passes ts d'
  | .error e c' => ∃ good bad, Faults e c c' good bad ∧ (∃ more, V (good ++ more)) ∧
    ∀ d us, d.Within m → d.rest = good ++ bad :: us → ∀ a d', q d ≠ .ok a d'

namespace Tandem

/-- Two readings that succeed on the same tokens go in tandem. -/
theorem of_ok {a : α} {c' : Cursor} {ts : List Token} (hp : p c = .ok a c')
    (hpass : c.Passes ts c')
    (hq : ∀ d us, d.Within m → d.rest = ts ++ c'.current :: us →
      ∃ d', q d = .ok a d' ∧ d.Passes ts d') : Tandem V m p q c := by
  unfold Tandem
  rw [hp]
  exact ⟨ts, hpass, hq⟩

/-- Two readings that fail on the same token go in tandem, if the tokens in front of it can be
completed. -/
theorem of_error {e : ParseError} {c' : Cursor} {good : List Token} {bad : Token}
    (hp : p c = .error e c') (hfault : Faults e c c' good bad) (hV : ∃ more, V (good ++ more))
    (hq : ∀ d us, d.Within m → d.rest = good ++ bad :: us → ∀ a d', q d ≠ .ok a d') :
    Tandem V m p q c := by
  unfold Tandem
  rw [hp]
  exact ⟨good, bad, hfault, hV, hq⟩

/-- Where the first reading succeeds, the second one does. -/
theorem ok {a : α} {c' : Cursor} (h : Tandem V m p q c) (hp : p c = .ok a c') :
    ∃ ts, c.Passes ts c' ∧ ∀ d us, d.Within m → d.rest = ts ++ c'.current :: us →
      ∃ d', q d = .ok a d' ∧ d.Passes ts d' := by
  unfold Tandem at h
  rwa [hp] at h

/-- Where the first reading fails, the second one fails on the same token. -/
theorem error {e : ParseError} {c' : Cursor} (h : Tandem V m p q c) (hp : p c = .error e c') :
    ∃ good bad, Faults e c c' good bad ∧ (∃ more, V (good ++ more)) ∧
      ∀ d us, d.Within m → d.rest = good ++ bad :: us → ∀ a d', q d ≠ .ok a d' := by
  unfold Tandem at h
  rwa [hp] at h

/-- Only the cursors that start with the same token count for the second reading. -/
theorem congr {p' q' : Parser α} (h : Tandem V m p q c) (hp : p' c = p c)
    (hq : ∀ d, d.Within m → d.current = c.current → q' d = q d) : Tandem V m p' q' c := by
  cases heq : p c with
  | ok a c' =>
    obtain ⟨ts, hpass, hrun⟩ := h.ok heq
    refine of_ok (hp.trans heq) hpass fun d us hd hrest => ?_
    rw [hq d hd (Cursor.current_eq_of_rest hpass.rest_eq hrest)]
    exact hrun d us hd hrest
  | error e c' =>
    obtain ⟨good, bad, hfault, hV, hrun⟩ := h.error heq
    obtain ⟨rest, hrest'⟩ := hfault.exists_rest
    refine of_error (hp.trans heq) hfault hV fun d us hd hrest => ?_
    rw [hq d hd (Cursor.current_eq_of_rest hrest' hrest)]
    exact hrun d us hd hrest

theorem mono {m' : Nat} (h : Tandem V m p q c) (hle : m' ≤ m) : Tandem V m' p q c := by
  cases heq : p c with
  | ok a c' =>
    obtain ⟨ts, hpass, hrun⟩ := h.ok heq
    exact of_ok heq hpass fun d us hd => hrun d us (hd.mono hle)
  | error e c' =>
    obtain ⟨good, bad, hfault, hV, hrun⟩ := h.error heq
    exact of_error heq hfault hV fun d us hd => hrun d us (hd.mono hle)

/-- A completion only has to be one of tokens that start like those at the cursor. -/
theorem strengthen (h : Tandem (fun us => us.head? = some c.current → V us) m p q c)
    (hV : ∃ more, V more) : Tandem V m p q c := by
  cases heq : p c with
  | ok a c' =>
    obtain ⟨ts, hpass, hrun⟩ := h.ok heq
    exact of_ok heq hpass hrun
  | error e c' =>
    obtain ⟨good, bad, hfault, ⟨more, hmore⟩, hrun⟩ := h.error heq
    refine of_error heq hfault ?_ hrun
    cases good with
    | nil => exact hV
    | cons t good =>
      obtain ⟨rest, hrest⟩ := hfault.exists_rest
      refine ⟨more, hmore ?_⟩
      rw [← (List.cons.inj hrest).1]
      rfl

/-! ## Rules -/

theorem pure (a : α) : Tandem V m (pure a) (pure a) c := by
  refine of_ok rfl (.refl c) fun d us _ _ => ?_
  exact ⟨d, rfl, .refl d⟩

/-- A complaint about the current token, where something else could have stood. -/
theorem fail {complaint : Complaint} (hlate : complaint.isLate = false)
    (hcall : ¬(ParseError.mk complaint c.current.position).IsUncalled c) (hV : ∃ more, V more) :
    Tandem V m (fail complaint : Parser α) (fail complaint) c := by
  refine of_error rfl (.here (.refl c) hlate hcall rfl) hV fun d us _ _ a d' => ?_
  exact fail_ne_ok

/-- What is read first fixes the place and the fuel of what is read next. -/
theorem bind {f g : α → Parser β} (h : Tandem V m p q c)
    (hf : ∀ a ts c', p c = .ok a c' → c.Passes ts c' →
      Tandem (fun us => V (ts ++ us)) (m - ts.length) (f a) (g a) c') :
    Tandem V m (p >>= f) (q >>= g) c := by
  cases hp : p c with
  | error e c' =>
    obtain ⟨good, bad, hfault, hV, hrun⟩ := h.error hp
    refine of_error (bind_of_error hp) hfault hV fun d us hd hrest b d' hq => ?_
    obtain ⟨a, d₁, hq, _⟩ := bind_eq_ok.1 hq
    exact hrun d us hd hrest a d₁ hq
  | ok a c₁ =>
    obtain ⟨ts, hpass, hrun⟩ := h.ok hp
    have hnext := hf a ts c₁ hp hpass
    -- the second reading gets to the place where the first one goes on
    have hmeet : ∀ {d t vs ws us}, d.Within m → c₁.rest = vs ++ t :: ws →
        d.rest = ts ++ (vs ++ t :: us) →
        ∃ d₁, q d = .ok a d₁ ∧ d.Passes ts d₁ ∧ d₁.Within (m - ts.length) ∧
          d₁.rest = vs ++ t :: us := by
      intro d t vs ws us hd hc₁ hrest
      have hhead : ∃ us', vs ++ t :: us = c₁.current :: us' := by
        cases vs with
        | nil => exact ⟨us, by rw [(List.cons.inj hc₁).1]; rfl⟩
        | cons v vs => exact ⟨vs ++ t :: us, by rw [(List.cons.inj hc₁).1]; rfl⟩
      obtain ⟨us', hus'⟩ := hhead
      obtain ⟨d₁, hq, hdpass⟩ := hrun d us' hd (by rw [hrest, hus'])
      exact ⟨d₁, hq, hdpass, hd.passes hdpass,
        List.append_cancel_left (hdpass.rest_eq.symm.trans hrest)⟩
    cases hfa : f a c₁ with
    | ok b c' =>
      obtain ⟨us, hpass', hrun'⟩ := hnext.ok hfa
      refine of_ok ((bind_of_ok hp).trans hfa) (hpass.trans hpass') fun d vs hd hrest => ?_
      rw [List.append_assoc] at hrest
      obtain ⟨d₁, hq, hdpass, hd₁, hrest₁⟩ := hmeet hd hpass'.rest_eq hrest
      obtain ⟨d', hg, hdpass'⟩ := hrun' d₁ vs hd₁ hrest₁
      exact ⟨d', (bind_of_ok hq).trans hg, hdpass.trans hdpass'⟩
    | error e c' =>
      obtain ⟨good, bad, hfault, ⟨more, hmore⟩, hrun'⟩ := hnext.error hfa
      obtain ⟨rest, hrest'⟩ := hfault.exists_rest
      refine of_error ((bind_of_ok hp).trans hfa) (hfault.trans hpass) ⟨more, ?_⟩
        fun d us hd hrest b d' hqg => ?_
      · rwa [List.append_assoc]
      · rw [List.append_assoc] at hrest
        obtain ⟨d₁, hq, _, hd₁, hrest₁⟩ := hmeet hd hrest' hrest
        rw [bind_of_ok hq] at hqg
        exact hrun' d₁ us hd₁ hrest₁ b d' hqg

/-- What was read first belongs to its language. -/
theorem next {L : α → List Token → Prop} {f g : α → Parser β} (hc : c.Within n)
    (h : Tandem V m p q c) (hL : Sound p L)
    (hf : ∀ a ts c', L a ts → c'.Within n → Tandem (fun us => V (ts ++ us)) m (f a) (g a) c') :
    Tandem V m (p >>= f) (q >>= g) c := by
  refine h.bind fun a ts c' hp hpass => ?_
  obtain ⟨ts', hpass', ha⟩ := hL hc.ended hp
  obtain rfl := hpass.unique hpass'
  exact (hf a ts c' ha ((hc.passes hpass).mono (Nat.sub_le _ _))).mono (Nat.sub_le _ _)

/-- If it is more than nothing, there are fewer tokens left. -/
theorem nextMore {L : α → List Token → Prop} {f g : α → Parser β} (hc : c.Within n)
    (h : Tandem V m p q c) (hL : Sound p L) (hmore : ∀ {a ts}, L a ts → ts ≠ [])
    (hf : ∀ a ts c', L a ts → c'.Within (n - 1) →
      Tandem (fun us => V (ts ++ us)) (m - 1) (f a) (g a) c') :
    Tandem V m (p >>= f) (q >>= g) c := by
  refine h.bind fun a ts c' hp hpass => ?_
  obtain ⟨ts', hpass', ha⟩ := hL hc.ended hp
  obtain rfl := hpass.unique hpass'
  have hlength := List.length_pos_of_ne_nil (hmore ha)
  exact (hf a ts c' ha ((hc.passes hpass).mono (by omega))).mono (by omega)

theorem map (f : α → β) (h : Tandem V m p q c) : Tandem V m (f <$> p) (f <$> q) c := by
  have hmap : ∀ x : Parser α, f <$> x = x >>= fun a => Pure.pure (f a) := fun _ => rfl
  rw [hmap, hmap]
  exact h.bind fun a _ _ _ _ => .pure (f a)

theorem current {f g : Token → Parser β} (h : Tandem V m (f c.current) (g c.current) c) :
    Tandem V m (current >>= f) (Parser.current >>= g) c :=
  h.congr rfl fun _ _ hd => by rw [← hd]; rfl

theorem isAt {k : Kind} {f g : Bool → Parser β}
    (h : Tandem V m (f (decide (c.current.kind = k))) (g (decide (c.current.kind = k))) c) :
    Tandem V m (isAt k >>= f) (Parser.isAt k >>= g) c :=
  h.congr rfl fun _ _ hd => by rw [← hd]; rfl

/-- A step over a token that is not the mark of the end. -/
theorem advance {f g : Token → Parser β} (hc : c.Ended) (hk : c.current.kind ≠ .eof)
    (h : Tandem (fun us => V (c.current :: us)) (m - 1) (f c.current) (g c.current) c.advance) :
    Tandem V m (advance >>= f) (Parser.advance >>= g) c := by
  have hstep : Tandem V m Parser.advance Parser.advance c := by
    refine of_ok rfl (Cursor.passes_advance hc hk) fun d us hd hrest => ?_
    have hcurrent : d.current = c.current := (List.cons.inj hrest).1
    refine ⟨d.advance, by rw [← hcurrent]; rfl, ?_⟩
    rw [← hcurrent] at hk ⊢
    exact Cursor.passes_advance hd.ended hk
  refine hstep.bind fun t ts c' hrun hpass => ?_
  obtain ⟨rfl, rfl⟩ := advance_eq_ok.1 hrun
  obtain rfl := hpass.unique (Cursor.passes_advance hc hk)
  exact h

/-- A token of a kind, which is not the mark of the end, and what follows it. -/
theorem demand {k : Kind} {complaint : Complaint} {f g : Token → Parser β} (hc : c.Within n)
    (hk : k ≠ .eof) (hlate : complaint.isLate = false)
    (hcomplaint : complaint ≠ .expected .expression) (hV : ∃ more, V more)
    (h : c.current.kind = k → c.advance.Within (n - 1) →
      Tandem (fun us => V (c.current :: us)) (m - 1) (f c.current) (g c.current) c.advance) :
    Tandem V m (demand k complaint >>= f) (Parser.demand k complaint >>= g) c := by
  by_cases hkind : c.current.kind = k
  · have hne : c.current.kind ≠ .eof := by rwa [hkind]
    have hrun : ∀ (d : Cursor) (f : Token → Parser β), d.current = c.current →
        (Parser.demand k complaint >>= f) d = (Parser.advance >>= f) d := fun d f hd => by
      rw [bind_of_ok (demand_eq_ok.2 ⟨by rw [hd, hkind], rfl, rfl⟩),
        bind_of_ok (advance_eq_ok.2 ⟨rfl, rfl⟩)]
    refine (advance hc.ended hne (h hkind (hc.advance hne))).congr (hrun c f rfl) ?_
    exact fun d _ hd => hrun d g hd
  · have hrun : ∀ (d : Cursor) (f : Token → Parser β), d.current = c.current →
        (Parser.demand k complaint >>= f) d = (Parser.fail complaint : Parser β) d :=
      fun d f hd => bind_of_error (demand_of_ne (by rwa [hd]))
    refine (fail hlate (fun hcall => hcomplaint hcall.1) hV).congr (hrun c f rfl) ?_
    exact fun d _ hd => hrun d g hd

theorem expect {k : Kind} {what : Expectation} {f g : Token → Parser β} (hc : c.Within n)
    (hk : k ≠ .eof) (hwhat : what ≠ .expression) (hV : ∃ more, V more)
    (h : c.current.kind = k → c.advance.Within (n - 1) →
      Tandem (fun us => V (c.current :: us)) (m - 1) (f c.current) (g c.current) c.advance) :
    Tandem V m (expect k what >>= f) (Parser.expect k what >>= g) c :=
  demand hc hk rfl (fun heq => hwhat (Complaint.expected.inj heq)) hV h

/-- A token that may be missing, and what follows it. -/
theorem accept {k : Kind} {f g : Option Token → Parser β} (hc : c.Within n) (hk : k ≠ .eof)
    (hsome : c.current.kind = k → c.advance.Within (n - 1) →
      Tandem (fun us => V (c.current :: us)) (m - 1) (f (some c.current)) (g (some c.current)) c.advance)
    (hnone : c.current.kind ≠ k → Tandem V m (f none) (g none) c) :
    Tandem V m (accept k >>= f) (Parser.accept k >>= g) c := by
  by_cases hkind : c.current.kind = k
  · have hne : c.current.kind ≠ .eof := by rwa [hkind]
    have hrun : ∀ (d : Cursor) (f : Option Token → Parser β), d.current = c.current →
        (Parser.accept k >>= f) d = (Parser.advance >>= fun t => f (some t)) d := fun d f hd => by
      rw [bind_of_ok (accept_of_eq (by rw [hd, hkind])), bind_of_ok (advance_eq_ok.2 ⟨rfl, rfl⟩)]
    have hstep := advance (f := fun t => f (some t)) (g := fun t => g (some t)) hc.ended hne
      (hsome hkind (hc.advance hne))
    exact hstep.congr (hrun c f rfl) fun d _ hd => hrun d g hd
  · have hrun : ∀ (d : Cursor) (f : Option Token → Parser β), d.current = c.current →
        (Parser.accept k >>= f) d = f none d :=
      fun d f hd => bind_of_ok (accept_of_ne (by rwa [hd]))
    exact (hnone hkind).congr (hrun c f rfl) fun d _ hd => hrun d g hd

/-- Each reading takes its fuel from its own cursor. -/
theorem remaining {f g : Nat → Parser β}
    (h : ∀ k, Tandem V (min (k + 1) m) (f c.remaining) (g k) c) :
    Tandem V m (remaining >>= f) (Parser.remaining >>= g) c := by
  have hrun : ∀ (d : Cursor) (f : Nat → Parser β), (Parser.remaining >>= f) d = f d.remaining d :=
    fun _ _ => rfl
  have hmin {d : Cursor} (hd : d.Within m) : d.Within (min (d.remaining + 1) m) :=
    ⟨hd.ended, Nat.lt_min.2 ⟨Nat.lt_succ_self _, hd.lt⟩⟩
  cases hf : f c.remaining c with
  | ok a c' =>
    obtain ⟨ts, hpass, _⟩ := (h 0).ok hf
    refine of_ok ((hrun c f).trans hf) hpass fun d us hd hrest => ?_
    obtain ⟨ts', hpass', hg⟩ := (h d.remaining).ok hf
    obtain rfl := hpass.unique hpass'
    exact hg d us (hmin hd) hrest
  | error e c' =>
    obtain ⟨good, bad, hfault, hV, _⟩ := (h 0).error hf
    refine of_error ((hrun c f).trans hf) hfault hV fun d us hd hrest => ?_
    obtain ⟨good', bad', hfault', _, hg⟩ := (h d.remaining).error hf
    obtain ⟨rfl, rfl⟩ := hfault.unique hfault'
    exact hg d us (hmin hd) hrest

/-- A reading without fuel of its own fails on all tokens that go on with the one that does not
fit. -/
theorem refutes {e : ParseError} {c' d : Cursor} {good us : List Token} {bad : Token}
    (h : ∀ m, Tandem V m p q c) (hp : p c = .error e c') (hfault : Faults e c c' good bad)
    (hd : d.Ended) (hrest : d.rest = good ++ bad :: us) (a : α) (d' : Cursor) : q d ≠ .ok a d' := by
  obtain ⟨good', bad', hfault', _, hq⟩ := (h (d.remaining + 1)).error hp
  obtain ⟨rfl, rfl⟩ := hfault.unique hfault'
  exact hq d us (.of_ended hd) hrest a d'

end Tandem

end Parser

end Boli
