import Formula.Proofs.Token.Decoding
import Formula.Proofs.Token.Run

/-!
# Calls on a lexer

A lexer may be used call by call, in any order and on after a failure, with any lexing. Every call is sound
wherever those before it have left the cursor (`Lexer.Call.exists_keeps`), so all of them are
(`Lexer.exists_keeps_of_calls`).
-/

namespace Formula

namespace Lexing

open Lexer (Reading Reaches)

variable {lexing : Lexing} {dropSigil : Bool} {lexer after : Lexer}

theorem reaches_start (lexing : Lexing) (lexer : Lexer) : lexer.Reaches (lexing.start lexer) := by
  unfold start
  split
  · exact Lexer.reaches_skipBlanks lexer
  · exact .refl lexer

/-- The decoder that the lexing puts to work for the next token, if it does. -/
def reading? (lexing : Lexing) (dropSigil : Bool) (lexer : Lexer) : Option Reading :=
  (lexing.start lexer).current?.bind fun byte =>
    match lexing.action byte with
    | .decode decoder => some ⟨lexing.start lexer, decoder, dropSigil⟩
    | .stop | .fail => none

theorem reading?_eq_some_iff {reading : Reading} : lexing.reading? dropSigil lexer = some reading ↔
    ∃ byte, (lexing.start lexer).current? = some byte ∧ lexing.action byte = .decode reading.decoder ∧
      reading = ⟨lexing.start lexer, reading.decoder, dropSigil⟩ := by
  rw [reading?, Option.bind_eq_some_iff]
  refine exists_congr fun byte => and_congr_right fun _ => ?_
  split
  · rename_i decoder chosen
    rw [chosen]
    constructor
    · rintro ⟨⟩
      exact ⟨rfl, rfl⟩
    · rintro ⟨same, whole⟩
      cases same
      rw [whole]
  · rename_i stops
    simp [stops]
  · rename_i fails
    simp [fails]

theorem reaches_of_reading? {reading : Reading} (made : lexing.reading? dropSigil lexer = some reading) :
    lexer.Reaches reading.before := by
  obtain ⟨-, -, -, whole⟩ := reading?_eq_some_iff.mp made
  rw [whole]
  exact lexing.reaches_start lexer

theorem next_of_reading? {reading : Reading} (made : lexing.reading? dropSigil lexer = some reading) :
    lexing.next dropSigil lexer = (reading.result.map some, reading.after) := by
  obtain ⟨byte, ahead, chosen, whole⟩ := reading?_eq_some_iff.mp made
  rw [whole]
  simp only [next, ahead, chosen, Reading.result, Reading.after]
  rcases (lexing.start lexer).decode dropSigil reading.decoder with ⟨_ | _, after⟩
  · rfl
  · rfl

theorem next_eq_ok_iff {reading : Reading} (made : lexing.reading? dropSigil lexer = some reading)
    {token : Token} : lexing.next dropSigil lexer = (.ok (some token), after) ↔
      reading.result = .ok token ∧ reading.after = after := by
  rw [next_of_reading? made, Prod.mk.injEq]
  cases reading.result with
  | error e => simp [Except.map]
  | ok other => simp [Except.map]

theorem next_eq_error_iff {reading : Reading} (made : lexing.reading? dropSigil lexer = some reading)
    {e : LexError} : lexing.next dropSigil lexer = (.error e, after) ↔
      reading.result = .error e ∧ reading.after = after := by
  rw [next_of_reading? made, Prod.mk.injEq]
  cases reading.result with
  | error other => simp [Except.map]
  | ok token => simp [Except.map]

theorem next_of_reading?_eq_none (made : lexing.reading? dropSigil lexer = none) :
    lexing.next dropSigil lexer = (.ok none, lexing.start lexer) ∨
      (lexing.start lexer).rest ≠ [] ∧ lexing.next dropSigil lexer = (lexing.start lexer).refuse := by
  rw [reading?] at made
  unfold next
  split
  · exact .inl rfl
  · rename_i byte ahead
    rw [ahead, Option.bind_some] at made
    split
    · rename_i decoder chosen
      rw [chosen] at made
      cases made
    · exact .inl rfl
    · refine .inr ⟨?_, rfl⟩
      rintro empty
      rw [Lexer.current?, empty] at ahead
      cases ahead

theorem next_snd_of_reading?_eq_none (made : lexing.reading? dropSigil lexer = none) :
    (lexing.next dropSigil lexer).2 = lexing.start lexer := by
  rcases next_of_reading?_eq_none made with same | ⟨-, same⟩
  · rw [same]
  · rw [same]
    rfl

theorem reaches_of_next {result : Except LexError (Option Token)}
    (read : lexing.next dropSigil lexer = (result, after)) : lexer.Reaches after := by
  cases made : lexing.reading? dropSigil lexer with
  | none =>
    have same : after = lexing.start lexer := by rw [← next_snd_of_reading?_eq_none made, read]
    rw [same]
    exact lexing.reaches_start lexer
  | some reading =>
    cases read.symm.trans (next_of_reading? made)
    exact (reaches_of_reading? made).trans reading.reaches

theorem reading_of_next {token : Token} (read : lexing.next dropSigil lexer = (.ok (some token), after)) :
    ∃ reading, lexing.reading? dropSigil lexer = some reading ∧ lexer.Reaches reading.before ∧
      reading.result = .ok token ∧ reading.after = after := by
  cases made : lexing.reading? dropSigil lexer with
  | none =>
    rcases next_of_reading?_eq_none made with same | ⟨-, same⟩
    · cases read.symm.trans same
    · cases read.symm.trans same
  | some reading => exact ⟨reading, rfl, reaches_of_reading? made, (next_eq_ok_iff made).mp read⟩

/-- Reading all tokens from `first` on comes to ask for the next one at a lexer. -/
inductive Enters (lexing : Lexing) (dropSigil : Bool) : (first : Lexer) → Lexer → Prop where
  | here (lexer : Lexer) : Enters lexing dropSigil lexer lexer
  | onward {first middle lexer : Lexer} {token : Token}
      (read : lexing.next dropSigil first = (.ok (some token), middle))
      (enters : Enters lexing dropSigil middle lexer) : Enters lexing dropSigil first lexer

variable {first middle : Lexer} {ending : Lexer.Result (List Token)} {events : List Event} {reading : Reading}
  {token : Token} {tokens : List Token} {e : LexError}

theorem Enters.reaches (enters : lexing.Enters dropSigil first lexer) : first.Reaches lexer := by
  induction enters with
  | here lexer => exact .refl lexer
  | onward read _ ih => exact (reaches_of_next read).trans ih

theorem exists_lexes_of_token (read : lexing.next dropSigil first = (.ok (some token), middle))
    (lexes : Lexes lexing dropSigil first ending events) :
    ∃ result later, Lexes lexing dropSigil middle (result, ending.2) later ∧
      ending.1 = result.map (token :: ·) := by
  cases lexes with
  | ends other => cases read.symm.trans other
  | fails other => cases read.symm.trans other
  | token other onward =>
    cases read.symm.trans other
    exact ⟨_, _, onward, rfl⟩

theorem reaches_of_lexes (lexes : Lexes lexing dropSigil lexer ending events)
    {result : Except LexError (Option Token)} (read : lexing.next dropSigil lexer = (result, after)) :
    after.Reaches ending.2 := by
  induction lexes generalizing after result with
  | ends other =>
    cases read.symm.trans other
    exact .refl _
  | fails other =>
    cases read.symm.trans other
    exact .refl _
  | token other _ ih =>
    cases read.symm.trans other
    exact (reaches_of_next rfl).trans (ih rfl)

theorem Enters.reaches_ending (enters : lexing.Enters dropSigil first lexer)
    (lexes : Lexes lexing dropSigil first ending events)
    (made : lexing.reading? dropSigil lexer = some reading) : reading.after.Reaches ending.2 := by
  induction enters generalizing ending events with
  | here lexer => exact reaches_of_lexes lexes (next_of_reading? made)
  | onward read _ ih =>
    obtain ⟨_, _, onward, -⟩ := exists_lexes_of_token read lexes
    exact (ih onward made :)

/-- The first decoder to fail ends the reading. -/
theorem Enters.ending_eq (enters : lexing.Enters dropSigil first lexer)
    (lexes : Lexes lexing dropSigil first ending events)
    (made : lexing.reading? dropSigil lexer = some reading) (failed : reading.result = .error e) :
    ending = (.error e, reading.after) := by
  induction enters generalizing ending events with
  | here lexer =>
    have read := (next_eq_error_iff made).mpr ⟨failed, rfl⟩
    cases lexes with
    | ends other => cases read.symm.trans other
    | fails other =>
      cases read.symm.trans other
      rfl
    | token other _ => cases read.symm.trans other
  | onward read _ ih =>
    obtain ⟨result, _, onward, outcome⟩ := exists_lexes_of_token read lexes
    obtain ⟨failure, left⟩ := Prod.mk.inj (ih onward made)
    rw [failure] at outcome
    exact Prod.ext outcome left

theorem exists_reading_of_mem (lexes : Lexes lexing dropSigil lexer ending events)
    (outcome : ending.1 = .ok tokens) (member : token ∈ tokens) : ∃ entered reading,
      lexing.Enters dropSigil lexer entered ∧ lexing.reading? dropSigil entered = some reading ∧
        reading.result = .ok token := by
  induction lexes generalizing tokens with
  | ends _ =>
    cases outcome
    cases member
  | fails _ => cases outcome
  | @token _ _ _ _ result _ read _ ih =>
    cases result with
    | error e => cases outcome
    | ok rest =>
      cases outcome
      rcases List.mem_cons.mp member with rfl | later
      · obtain ⟨reading, made, -, result, -⟩ := reading_of_next read
        exact ⟨_, reading, .here _, made, result⟩
      · obtain ⟨entered, reading, enters, made, result⟩ := ih rfl later
        exact ⟨entered, reading, .onward read enters, made, result⟩

theorem exists_enters_of_error (lexes : Lexes lexing dropSigil lexer ending events)
    (failed : ending.1 = .error e) : ∃ entered after, lexing.Enters dropSigil lexer entered ∧
      lexing.next dropSigil entered = (.error e, after) := by
  induction lexes with
  | ends _ => cases failed
  | fails read =>
    cases failed
    exact ⟨_, _, .here _, read⟩
  | @token _ _ _ _ result _ read _ ih =>
    cases result with
    | error other =>
      cases failed
      obtain ⟨entered, after, enters, next⟩ := ih rfl
      exact ⟨entered, after, .onward read enters, next⟩
    | ok rest => cases failed

/-- Tokens that were read one behind the other while the cursor moved. -/
structure InOrder (before : Lexer) (tokens : List Token) (after : Lexer) : Prop where
  increasing : tokens.Pairwise fun first second => first.offset < second.offset
  between : ∀ token ∈ tokens, before.offset ≤ token.offset ∧ token.offset < after.offset

theorem inOrder_of_lexes (lexes : Lexes lexing dropSigil lexer ending events)
    (outcome : ending.1 = .ok tokens) : InOrder lexer tokens ending.2 := by
  induction lexes generalizing tokens with
  | ends _ =>
    cases outcome
    exact ⟨.nil, nofun⟩
  | fails _ => cases outcome
  | @token lexer middle after token result _ read onward ih =>
    cases result with
    | error e => cases outcome
    | ok rest =>
      cases outcome
      obtain ⟨increasing, between⟩ := ih rfl
      obtain ⟨reading, -, starts, result, rfl⟩ := reading_of_next read
      obtain ⟨offset, moves, -⟩ := reading.sound.reads token result
      have further := starts.offset_le
      have ends := ((reaches_of_next rfl).trans (reaches_of_lexes onward rfl)).offset_le
      refine ⟨List.pairwise_cons.mpr ⟨fun other member => ?_, increasing⟩, fun other member => ?_⟩
      · have := (between other member).1
        omega
      · dsimp only at between ends ⊢
        rcases List.mem_cons.mp member with rfl | member
        · omega
        · have := between other member
          omega

end Lexing

namespace Lexer

open Lexing (InOrder)

/-- What a lexer is asked to do. -/
inductive Call where
  | skipBlanks
  | decode (decoder : Decoder) (dropSigil : Bool)
  | errorHere
  | errorAt (start : Nat)
  | next (lexing : Lexing) (dropSigil : Bool)
  | tokenize (lexing : Lexing) (dropSigil : Bool)

namespace Call

/-- The tokens that a call gives, or its failure, and the lexer after it. -/
def perform (lexer : Lexer) : Call → LogM (Result (List Token))
  | .skipBlanks => return (.ok [], lexer.skipBlanks)
  | .decode decoder dropSigil =>
    report ((lexer.decode dropSigil decoder).1.map ([·]), (lexer.decode dropSigil decoder).2)
  | .errorHere => report lexer.refuse
  | .errorAt start => report (.error (lexer.errorAt start), lexer)
  | .next lexing dropSigil =>
    report ((lexing.next dropSigil lexer).1.map Option.toList, (lexing.next dropSigil lexer).2)
  | .tokenize lexing dropSigil => lexing.tokenizeFrom dropSigil lexer

/-- The lexer after some calls. A call that fails leaves a lexer too. -/
def performAll : List Call → Lexer → LogM Lexer
  | [], lexer => return lexer
  | call :: rest, lexer => do
    let (_, after) ← call.perform lexer
    performAll rest after

/-- The decoders that a call puts to work. -/
inductive Makes : Call → Lexer → Reading → Prop where
  | decode (lexer : Lexer) (decoder : Decoder) (dropSigil : Bool) :
      Makes (.decode decoder dropSigil) lexer ⟨lexer, decoder, dropSigil⟩
  | next {lexing : Lexing} {dropSigil : Bool} {lexer : Lexer} {reading : Reading}
      (made : lexing.reading? dropSigil lexer = some reading) : Makes (.next lexing dropSigil) lexer reading
  | tokenize {lexing : Lexing} {dropSigil : Bool} {first lexer : Lexer} {reading : Reading}
      (enters : lexing.Enters dropSigil first lexer) (made : lexing.reading? dropSigil lexer = some reading) :
      Makes (.tokenize lexing dropSigil) first reading

/-- The call asks for one token. -/
def IsSingle : Call → Prop
  | .decode _ _ | .next _ _ => True
  | .skipBlanks | .errorHere | .errorAt _ | .tokenize _ _ => False

/-- A call moves the cursor on and not past the end, by what its decoders read. -/
structure Keeps (call : Call) (before : Lexer) (answer : Except LexError (List Token)) (after : Lexer) :
    Prop where
  reaches : before.Reaches after
  inside : after.offset ≤ before.source.utf8ByteSize
  readings : ∀ reading, call.Makes before reading →
    reading.Sound ∧ before.Reaches reading.before ∧ reading.after.Reaches after
  single : call.IsSingle → ∀ reading, call.Makes before reading →
    answer = reading.result.map ([·]) ∧ after = reading.after
  fails : ∀ reading e, call.Makes before reading → reading.result = .error e →
    answer = .error e ∧ after = reading.after
  answered : ∀ tokens, answer = .ok tokens → ∀ token ∈ tokens, ∃ reading,
    call.Makes before reading ∧ reading.result = .ok token
  inOrder : ∀ tokens, answer = .ok tokens → InOrder before tokens after

variable {call : Call} {before after : Lexer} {answer : Except LexError (List Token)} {reading : Reading}

theorem exists_emits_report {α : Type} (result : Result α) :
    ∃ events, Emits (report result) result events := by
  obtain ⟨outcome, after⟩ := result
  cases outcome with
  | error e => exact ⟨_, (Emits.logFailure e.message).bind (.pure _)⟩
  | ok value => exact ⟨_, .pure _⟩

theorem keeps_of_idle (inside : before.Inside) (idle : ∀ reading, ¬ call.Makes before reading)
    (reaches : before.Reaches after) (silent : ∀ tokens, answer = .ok tokens → tokens = []) :
    call.Keeps before answer after where
  reaches := reaches
  inside := reaches.offset_le_size inside
  readings reading makes := (idle reading makes).elim
  single _ reading makes := (idle reading makes).elim
  fails reading _ makes := (idle reading makes).elim
  answered tokens outcome := by
    rw [silent tokens outcome]
    exact nofun
  inOrder tokens outcome := by
    rw [silent tokens outcome]
    exact ⟨.nil, nofun⟩

theorem singleton_of_map_eq_ok {tokens : List Token} (outcome : reading.result.map ([·]) = .ok tokens) :
    ∃ token, reading.result = .ok token ∧ tokens = [token] := by
  cases result : reading.result with
  | error e =>
    rw [result] at outcome
    cases outcome
  | ok token =>
    rw [result] at outcome
    cases outcome
    exact ⟨token, rfl, rfl⟩

theorem keeps_of_reading (inside : before.Inside) (makes : call.Makes before reading)
    (only : ∀ other, call.Makes before other → other = reading) (starts : before.Reaches reading.before) :
    call.Keeps before (reading.result.map ([·])) reading.after where
  reaches := starts.trans reading.reaches
  inside := (starts.trans reading.reaches).offset_le_size inside
  readings other made := by
    rw [only other made]
    exact ⟨reading.sound, starts, .refl _⟩
  single _ other made := by
    rw [only other made]
    exact ⟨rfl, rfl⟩
  fails other e made failed := by
    rw [only other made] at failed ⊢
    rw [failed]
    exact ⟨rfl, rfl⟩
  answered tokens outcome token member := by
    obtain ⟨read, result, rfl⟩ := singleton_of_map_eq_ok outcome
    cases List.mem_singleton.mp member
    exact ⟨reading, makes, result⟩
  inOrder tokens outcome := by
    obtain ⟨read, result, rfl⟩ := singleton_of_map_eq_ok outcome
    obtain ⟨offset, moves, -⟩ := reading.sound.reads read result
    refine ⟨List.pairwise_singleton _ _, fun token member => ?_⟩
    cases List.mem_singleton.mp member
    rw [offset]
    exact ⟨starts.offset_le, moves⟩

theorem keeps_of_lexes {lexing : Lexing} {dropSigil : Bool} {ending : Result (List Token)} {events : List Event}
    (inside : before.Inside) (lexes : lexing.Lexes dropSigil before ending events) :
    (tokenize lexing dropSigil).Keeps before ending.1 ending.2 := by
  have reaches : before.Reaches ending.2 :=
    (Lexing.reaches_of_next rfl).trans (Lexing.reaches_of_lexes lexes rfl)
  refine ⟨reaches, reaches.offset_le_size inside, ?_, nofun, ?_, ?_, fun _ => Lexing.inOrder_of_lexes lexes⟩
  · rintro reading ⟨⟩
    rename_i entered enters made
    have starts := enters.reaches.trans (Lexing.reaches_of_reading? made)
    exact ⟨reading.sound, starts, enters.reaches_ending lexes made⟩
  · rintro reading e ⟨⟩ failed
    rename_i entered enters made
    exact Prod.mk.inj (enters.ending_eq lexes made failed)
  · intro tokens outcome token member
    obtain ⟨entered, reading, enters, made, result⟩ := Lexing.exists_reading_of_mem lexes outcome member
    exact ⟨reading, .tokenize enters made, result⟩

theorem keeps_of_next {lexing : Lexing} {dropSigil : Bool} {result : Except LexError (Option Token)}
    (inside : before.Inside) (read : lexing.next dropSigil before = (result, after)) :
    (next lexing dropSigil).Keeps before (result.map Option.toList) after := by
  cases made : lexing.reading? dropSigil before with
  | none =>
    have idle : ∀ reading, ¬ (next lexing dropSigil).Makes before reading := by
      rintro reading ⟨⟩
      rename_i other
      cases made.symm.trans other
    refine keeps_of_idle inside idle (Lexing.reaches_of_next read) ?_
    intro tokens outcome
    rcases Lexing.next_of_reading?_eq_none made with same | ⟨-, same⟩
    · cases read.symm.trans same
      cases outcome
      rfl
    · cases read.symm.trans same
      cases outcome
  | some reading =>
    have only : ∀ other, (next lexing dropSigil).Makes before other → other = reading := by
      rintro other ⟨⟩
      rename_i also
      exact Option.some.inj (also.symm.trans made)
    have keeps := keeps_of_reading inside (.next made) only (Lexing.reaches_of_reading? made)
    cases read.symm.trans (Lexing.next_of_reading? made)
    cases outcome : reading.result with
    | error e =>
      rw [outcome] at keeps
      exact keeps
    | ok token =>
      rw [outcome] at keeps
      exact keeps

theorem exists_keeps_of_report (result : Result (List Token)) (performs : call.perform before = report result)
    (keeps : call.Keeps before result.1 result.2) :
    ∃ answer after events, Emits (call.perform before) (answer, after) events ∧
      call.Keeps before answer after := by
  obtain ⟨events, reports⟩ := exists_emits_report result
  rw [← performs] at reports
  exact ⟨result.1, result.2, events, reports, keeps⟩

/-- Every call is sound, wherever in its source the lexer stands. -/
theorem exists_keeps (call : Call) {before : Lexer} (inside : before.Inside) :
    ∃ answer after events, Emits (call.perform before) (answer, after) events ∧
      call.Keeps before answer after := by
  cases call with
  | skipBlanks =>
    refine ⟨_, _, _, .pure _, keeps_of_idle inside nofun before.reaches_skipBlanks ?_⟩
    rintro _ ⟨⟩
    rfl
  | decode decoder dropSigil =>
    refine exists_keeps_of_report _ rfl ?_
    refine keeps_of_reading inside (.decode before decoder dropSigil) ?_ (.refl before)
    rintro _ ⟨⟩
    rfl
  | errorHere =>
    exact exists_keeps_of_report before.refuse rfl (keeps_of_idle inside nofun (.refl before) nofun)
  | errorAt start =>
    exact exists_keeps_of_report (.error (before.errorAt start), before) rfl
      (keeps_of_idle inside nofun (.refl before) nofun)
  | next lexing dropSigil => exact exists_keeps_of_report _ rfl (keeps_of_next inside rfl)
  | tokenize lexing dropSigil =>
    obtain ⟨⟨answer, after⟩, events, lexes⟩ := lexing.exists_lexes dropSigil before
    exact ⟨answer, after, events, Lexing.emits_tokenizeFrom lexes, keeps_of_lexes inside lexes⟩

theorem exists_performAll (calls : List Call) {first : Lexer} (inside : first.Inside) :
    ∃ last events, Emits (performAll calls first) last events ∧ first.Reaches last := by
  -- Each call starts where the one before it has left the cursor, which is inside of the source again.
  induction calls generalizing first with
  | nil => exact ⟨first, _, .pure first, .refl first⟩
  | cons call rest ih =>
    obtain ⟨_, middle, _, performed, keeps⟩ := call.exists_keeps inside
    obtain ⟨last, _, onward, reaches⟩ := ih (keeps.reaches.inside inside)
    exact ⟨last, _, performed.bind onward, keeps.reaches.trans reaches⟩

end Call

/-- Behind any calls on the lexer of a source, every call is sound. -/
theorem exists_keeps_of_calls (source : String) (calls : List Call) (call : Call) :
    ∃ before answer after, before.source = source ∧ call.Keeps before answer after ∧
      (∀ log, ((Call.performAll calls (.ofSource source)).run log).1 = before) ∧
      ∀ log, ((call.perform before).run log).1 = (answer, after) := by
  obtain ⟨before, _, performed, reaches⟩ := Call.exists_performAll calls (inside_ofSource source)
  obtain ⟨answer, after, _, answered, keeps⟩ := call.exists_keeps (reaches.inside (inside_ofSource source))
  exact ⟨before, answer, after, reaches.source_eq, keeps, performed.value_eq, answered.value_eq⟩

end Lexer

end Formula
