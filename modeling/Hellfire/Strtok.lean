import Hellfire.Library.Splitting
import Hellfire.StrtokCore
import Hellfire.UhfsTree

/-!
The calls of `strtok` on a string return its longest segments without a delimiter, in order, and
then `NULL`; the segments become strings of their own.
-/

namespace Hellfire.Libc

open ByteMemory Splitting

variable {memory : Memory} {delim : CString}

theorem scanTo_spec {found : UInt8 → Bool} {rest : List UInt8} : ∀ {front : List UInt8} {left s : Nat},
    holdsString memory s (front ++ rest) = true → (∀ c ∈ front, found c = false) →
      found (rest.headD 0) = true → front.length < left →
        scanTo found memory left s = some (rest.headD 0, s + front.length + 1) := by
  intro front
  induction front with
  | nil =>
      intro left s holds _ stops room
      obtain ⟨left, rfl⟩ := Nat.exists_eq_succ_of_ne_zero (Nat.ne_zero_of_lt room)
      have here : memory s = rest.headD 0 := by
        cases rest with
        | nil => exact holdsString_nil.mp holds
        | cons byte rest => exact (holdsString_cons.mp holds).1
      rw [scanTo, here, if_pos stops]
      rfl
  | cons byte front ih =>
      intro left s holds passes stops room
      rw [List.length_cons] at room ⊢
      obtain ⟨left, rfl⟩ := Nat.exists_eq_succ_of_ne_zero (Nat.ne_zero_of_lt room)
      obtain ⟨first, others⟩ := holdsString_cons.mp holds
      have passed := passes byte List.mem_cons_self
      have later := ih others (fun c member => passes c (List.mem_cons_of_mem _ member)) stops
        (Nat.lt_of_succ_lt_succ room)
      rw [scanTo, first, passed, if_neg Bool.false_ne_true, later]
      congr 2
      omega

theorem delimits_zero (delim : CString) : delimits delim 0 = false :=
  Bool.eq_false_iff.mpr fun listed => delim.ended (List.contains_iff_mem.mp listed)

theorem endsToken_iff {c : UInt8} : endsToken delim c = true ↔ delimits delim c = true ∨ c = 0 := by
  rw [endsToken, delimits, List.contains_iff_mem, List.contains_iff_mem, List.mem_append,
    List.mem_singleton]

section Call

variable {before run after bytes : List UInt8} {a : Nat}

theorem strtok_blank (holds : holdsString memory a bytes = true)
    (blank : ∀ c ∈ bytes, delimits delim c = true) :
    strtok (a + bytes.length) delim none ⟨memory, some a⟩ = some (none, ⟨memory, none⟩) := by
  have scanned : scanTo (fun c => !delimits delim c) memory (a + bytes.length + 1 - a) a =
      some (0, a + bytes.length + 1) := by
    rw [← List.append_nil bytes] at holds
    refine scanTo_spec holds (fun c member => ?_) ?_ (by omega)
    · rw [blank c member]
      rfl
    · rw [List.headD_nil, delimits_zero]
      rfl
  simp only [strtok, Option.none_or, scanned, Option.bind_eq_bind, Option.bind_some]
  rfl

theorem strtok_run (holds : holdsString memory a (before ++ (run ++ after)) = true)
    (delimiters : ∀ c ∈ before, delimits delim c = true) (nonempty : run ≠ [])
    (free : ∀ c ∈ run, delimits delim c = false) (plain : 0 ∉ run)
    (stops : endsToken delim (after.headD 0) = true) :
    strtok (a + (before ++ (run ++ after)).length) delim none ⟨memory, some a⟩ =
      if after.headD 0 = 0 then some (some (a + before.length), ⟨memory, none⟩)
      else some (some (a + before.length),
        ⟨writeByte memory (a + before.length + run.length) 0,
          some (a + before.length + run.length + 1)⟩) := by
  obtain ⟨first, others, rfl⟩ := List.exists_cons_of_ne_nil nonempty
  have first_free := free first List.mem_cons_self
  have first_plain : first ≠ 0 := fun zero => plain (zero ▸ List.mem_cons_self)
  have sizes : (before ++ (first :: others ++ after)).length =
      before.length + (others.length + 1) + after.length := by
    simp only [List.length_append, List.length_cons]
    omega
  have start : scanTo (fun c => !delimits delim c) memory
      (a + (before ++ (first :: others ++ after)).length + 1 - a) a =
        some (first, a + before.length + 1) := by
    refine scanTo_spec holds (fun c member => ?_) ?_ (by omega)
    · rw [delimiters c member]
      rfl
    · rw [List.cons_append, List.headD_cons, first_free]
      rfl
  have tail : holdsString memory (a + before.length + 1) (others ++ after) = true :=
    (holdsString_cons.mp (holdsString_behind holds)).2
  have finish : scanTo (endsToken delim) memory
      (a + (before ++ (first :: others ++ after)).length + 1 - (a + before.length + 1))
      (a + before.length + 1) =
        some (after.headD 0, a + before.length + (first :: others).length + 1) := by
    rw [List.length_cons, Nat.add_comm others.length, ← Nat.add_assoc]
    refine scanTo_spec tail (fun c member => ?_) stops (by omega)
    refine Bool.eq_false_iff.mpr fun ends => ?_
    rcases endsToken_iff.mp ends with listed | zero
    · rw [free c (List.mem_cons_of_mem _ member)] at listed
      cases listed
    · exact plain (zero ▸ List.mem_cons_of_mem _ member)
  simp only [strtok, Option.none_or, start, Option.bind_eq_bind, Option.bind_some,
    if_neg first_plain, finish, Nat.add_sub_cancel]
  split
  · rfl
  · rfl

end Call

/-- What a number of calls return, and the memory they leave: the tokens in it are strings, and
nothing but the string changes. -/
structure Answers (runs : List (Nat × List UInt8)) (calls low high : Nat) (memory : Memory)
    (results : List (Option Nat)) (after : Memory) : Prop where
  returned : results = (List.range calls).map fun k => runs[k]?.map Prod.fst
  ended : ∀ k < calls, ∀ token ∈ runs[k]?, holdsString after token.1 token.2 = true
  outside : ∀ place, place < low ∨ high ≤ place → after place = memory place

theorem Answers.start (runs : List (Nat × List UInt8)) (low high : Nat) (memory : Memory) :
    Answers runs 0 low high memory [] memory :=
  ⟨rfl, fun k before => absurd before (Nat.not_lt_zero k), fun _ _ => rfl⟩

theorem Answers.first {runs : List (Nat × List UInt8)} {token : Nat × List UInt8}
    {calls low high low' : Nat} {memory written after : Memory} {results : List (Option Nat)}
    (answers : Answers runs calls low' high written results after)
    (behind : token.1 + token.2.length < low') (later : low ≤ low')
    (holds : holdsString written token.1 token.2 = true)
    (outside : ∀ place, place < low ∨ high ≤ place → written place = memory place) :
    Answers (token :: runs) (calls + 1) low high memory (some token.1 :: results) after := by
  refine ⟨?_, ?_, ?_⟩
  · rw [List.range_succ_eq_map, List.map_cons, List.map_map, answers.returned]
    rfl
  · intro k within found member
    cases k with
    | zero =>
        cases member
        rw [holdsString_congr fun place _ below => answers.outside place (.inl (by omega))]
        exact holds
    | succ k => exact answers.ended k (by omega) found member
  · intro place out
    rw [answers.outside place (by omega)]
    exact outside place out

theorem Answers.null {calls low high : Nat} {after : Memory} {results : List (Option Nat)}
    (answers : Answers [] calls low high memory results after) :
    Answers [] (calls + 1) low high memory (none :: results) after := by
  refine ⟨?_, ?_, answers.outside⟩
  · rw [List.range_succ_eq_map, List.map_cons, List.map_map, answers.returned]
    rfl
  · intro k _ token member
    cases member

section Calls

variable {stop calls : Nat} {state next final : StrtokState} {tok : Option Nat}
  {results : List (Option Nat)}

theorem calls_succ (call : strtok stop delim none state = some (tok, next))
    (later : strtokCalls stop delim (List.replicate calls none) next = some (results, final)) :
    strtokCalls stop delim (List.replicate (calls + 1) none) state = some (tok :: results, final) := by
  rw [List.replicate_succ, strtokCalls, call]
  simp only [Option.bind_eq_bind, Option.bind_some, later]
  rfl

theorem calls_exhausted (stop : Nat) (delim : CString) (memory : Memory) (calls low high : Nat) :
    ∃ results, strtokCalls stop delim (List.replicate calls none) ⟨memory, none⟩ =
        some (results, ⟨memory, none⟩) ∧ Answers [] calls low high memory results memory := by
  induction calls with
  | zero => exact ⟨[], rfl, .start [] low high memory⟩
  | succ calls ih =>
      obtain ⟨results, ends, answers⟩ := ih
      exact ⟨none :: results, calls_succ rfl ends, answers.null⟩

end Calls

theorem calls_spec {a : Nat} {bytes : List UInt8} {runs : List (Nat × List UInt8)}
    (splits : Splits (delimits delim) a bytes runs) : ∀ (calls : Nat) (memory : Memory), 0 ∉ bytes →
      holdsString memory a bytes = true →
        ∃ results final,
          strtokCalls (a + bytes.length) delim (List.replicate calls none) ⟨memory, some a⟩ =
            some (results, final) ∧
          Answers runs calls a (a + bytes.length) memory results final.memory := by
  induction splits with
  | @blank a bytes delimiters =>
      intro calls memory _ holds
      cases calls with
      | zero => exact ⟨[], _, rfl, .start _ _ _ _⟩
      | succ calls =>
          obtain ⟨results, ends, answers⟩ :=
            calls_exhausted (a + bytes.length) delim memory calls a (a + bytes.length)
          exact ⟨_, _, calls_succ (strtok_blank holds delimiters) ends, answers.null⟩
  | @last a before run delimiters nonempty free =>
      intro calls memory plain holds
      cases calls with
      | zero => exact ⟨[], _, rfl, .start _ _ _ _⟩
      | succ calls =>
          have stops : endsToken delim (([] : List UInt8).headD 0) = true :=
            endsToken_iff.mpr (.inr rfl)
          have whole := holds
          rw [← List.append_nil run] at whole
          have call := strtok_run whole delimiters nonempty free
            (fun member => plain (List.mem_append_right _ member)) stops
          rw [List.append_nil, List.headD_nil, if_pos rfl] at call
          have size : (before ++ run).length = before.length + run.length := List.length_append
          obtain ⟨results, ends, answers⟩ := calls_exhausted (a + (before ++ run).length) delim memory
            calls (a + (before ++ run).length + 1) (a + (before ++ run).length)
          refine ⟨_, _, calls_succ call ends, answers.first ?_ (by omega) (holdsString_behind holds)
            fun _ _ => rfl⟩
          simp only
          omega
  | @next a before run delimiter after runs delimiters nonempty free stop later ih =>
      intro calls memory plain holds
      cases calls with
      | zero => exact ⟨[], _, rfl, .start _ _ _ _⟩
      | succ calls =>
          have member : delimiter ∈ before ++ (run ++ delimiter :: after) :=
            List.mem_append_right _ (List.mem_append_right _ List.mem_cons_self)
          have nonzero : delimiter ≠ 0 := fun zero => plain (zero ▸ member)
          have call := strtok_run holds delimiters nonempty free
            (fun member => plain (List.mem_append_right _ (List.mem_append_left _ member)))
            (endsToken_iff.mpr (.inl stop))
          rw [List.headD_cons, if_neg nonzero] at call
          have size : a + (before ++ (run ++ delimiter :: after)).length =
              a + before.length + run.length + 1 + after.length := by
            simp only [List.length_append, List.length_cons]
            omega
          have segment := holdsString_behind holds
          have rest : holdsString (writeByte memory (a + before.length + run.length) 0)
              (a + before.length + run.length + 1) after = true := by
            rw [holdsString_congr fun place low _ => writeByte_other _ _ (by omega)]
            exact (holdsString_cons.mp (holdsString_behind segment)).2
          obtain ⟨results, final, ends, answers⟩ := ih calls _
            (fun zero => plain (List.mem_append_right _ (List.mem_append_right _
              (List.mem_cons_of_mem _ zero)))) rest
          rw [size] at call ⊢
          refine ⟨_, _, calls_succ call ends,
            answers.first (Nat.lt_succ_self _) (by omega) (holdsString_cut segment) ?_⟩
          exact fun place out => writeByte_other _ _ (by omega)

theorem calls_first (stop : Nat) (delim : CString) (s : Nat) (later : List (Option Nat))
    (state : StrtokState) : strtokCalls stop delim (some s :: later) state =
      strtokCalls stop delim (none :: later) { state with last := some s } := rfl

/-- Any number of calls on a string return its longest segments without a delimiter, in order, then
`NULL`. They read no byte behind the terminator and end the segments in place. -/
theorem strtok_returns_segments (string delim : CString) (memory : Memory) (s : Nat) (last : Option Nat)
    (holds : holdsString memory s string.bytes = true) :
    ∃ runs : List (Nat × List UInt8),
      (∀ place run, (place, run) ∈ runs ↔
        ∃ behind, place = s + behind ∧ MaximalRun (delimits delim) string.bytes behind run) ∧
      runs.Pairwise (fun first second => first.1 + first.2.length < second.1) ∧
      ∀ calls, ∃ results final,
        strtokCalls (s + string.bytes.length) delim (some s :: List.replicate calls none)
            ⟨memory, last⟩ = some (results, final) ∧
          results = (List.range (calls + 1)).map (fun k => runs[k]?.map Prod.fst) ∧
          (∀ k ≤ calls, ∀ token ∈ runs[k]?, holdsString final.memory token.1 token.2 = true) ∧
          ∀ place, place < s ∨ s + string.bytes.length ≤ place →
            final.memory place = memory place := by
  obtain ⟨runs, splits⟩ := Splits.exists (delimits delim) string.bytes.length s string.bytes
    (Nat.le_refl _)
  refine ⟨runs, fun place run => splits.mem_iff, splits.ordered, fun calls => ?_⟩
  obtain ⟨results, final, ends, answers⟩ :=
    calls_spec splits (calls + 1) memory string.ended holds
  rw [List.replicate_succ] at ends
  refine ⟨results, final, (calls_first _ _ _ _ _).trans ends, answers.returned, ?_, answers.outside⟩
  exact fun k within => answers.ended k (Nat.lt_succ_of_le within)

def pathDelimiters : CString := ⟨[32, 47], by decide⟩

/-- The three calls on "/ab c" return "ab", "c" and `NULL`. -/
theorem strtok_returns_segments_path :
    ∃ final, strtokCalls 105 pathDelimiters [some 100, none, none]
        ⟨writeBytes (fun _ => 0) 100 [47, 97, 98, 32, 99], none⟩ =
          some ([some 101, some 104, none], final) ∧
      holdsString final.memory 101 [97, 98] = true ∧ holdsString final.memory 104 [99] = true := by
  have holds : holdsString (writeBytes (fun _ => 0) 100 [47, 97, 98, 32, 99]) 100
      [47, 97, 98, 32, 99] = true := by decide
  obtain ⟨runs, segments, _, answers⟩ :=
    strtok_returns_segments ⟨[47, 97, 98, 32, 99], by decide⟩ pathDelimiters _ 100 none holds
  obtain ⟨results, final, ends, returned, ended, _⟩ := answers 2
  have places : results = [some 101, some 104, none] := by
    have evaluated : (strtokCalls 105 pathDelimiters [some 100, none, none]
        ⟨writeBytes (fun _ => 0) 100 [47, 97, 98, 32, 99], none⟩).map Prod.fst =
          some [some 101, some 104, none] := by decide
    exact Option.some.inj ((congrArg (Option.map Prod.fst) ends).symm.trans evaluated)
  have segment : ∀ k ≤ 2, ∀ place, results[k]? = some (some (100 + place)) →
      ∃ run, MaximalRun (delimits pathDelimiters) [47, 97, 98, 32, 99] place run ∧
        holdsString final.memory (100 + place) run = true := by
    intro k within place same
    rw [returned, List.getElem?_map, List.getElem?_range (by omega)] at same
    obtain ⟨⟨found, run⟩, at_, here⟩ := Option.map_eq_some_iff.mp (Option.some.inj same)
    obtain rfl : found = 100 + place := here
    obtain ⟨behind, apart, maximal⟩ := (segments _ run).mp (List.mem_of_getElem? at_)
    obtain rfl := Nat.add_left_cancel apart
    exact ⟨run, maximal, ended k within _ at_⟩
  have cut : ∀ {place run}, MaximalRun (delimits pathDelimiters) [47, 97, 98, 32, 99] place run →
      (place = 1 ∧ run = [97, 98]) ∨ ∃ delimiter rest behind, [32, 99] = delimiter :: rest ∧
        place = 4 + behind ∧ MaximalRun (delimits pathDelimiters) rest behind run := by
    intro place run maximal
    have stops : ∀ x ∈ [32, 99].head?, delimits pathDelimiters x = true := by rintro x ⟨⟩; rfl
    exact @MaximalRun.cases _ _ [47] [97, 98] [32, 99] run place (List.forall_mem_singleton.mpr rfl)
      (List.forall_mem_cons.mpr ⟨rfl, List.forall_mem_singleton.mpr rfl⟩) stops maximal
  refine ⟨final, ends.trans (by rw [places]), ?_, ?_⟩
  · obtain ⟨run, maximal, stands⟩ := segment 0 (by decide) 1 (by rw [places]; rfl)
    rcases cut maximal with ⟨-, rfl⟩ | ⟨_, _, behind, _, far, _⟩
    · exact stands
    · omega
  · obtain ⟨run, maximal, stands⟩ := segment 1 (by decide) 4 (by rw [places]; rfl)
    rcases cut maximal with ⟨near, -⟩ | ⟨_, _, behind, split, far, rest⟩
    · omega
    · obtain rfl : behind = 0 := by omega
      obtain ⟨rfl, rfl⟩ := List.cons.inj split
      rcases @MaximalRun.cases _ _ [] [99] [] run 0 nofun (List.forall_mem_singleton.mpr rfl) nofun rest
        with ⟨-, rfl⟩ | ⟨_, _, _, none, _⟩
      · exact stands
      · cases none

section Paths

theorem delimits_path (byte : UInt8) : delimits pathDelimiters byte = isDelimiter byte := by
  rw [Bool.eq_iff_iff, delimits, List.contains_iff_mem]
  simp [pathDelimiters, isDelimiter]

theorem tokensFrom_splits {start : Nat} {bytes : List UInt8} {runs : List (Nat × List UInt8)}
    (splits : Splits (delimits pathDelimiters) start bytes runs) :
    ∀ fuel, bytes.length ≤ fuel → tokensFrom fuel bytes = runs.map Prod.snd := by
  induction splits with
  | @blank start bytes delimiters =>
      intro fuel _
      cases fuel with
      | zero => rfl
      | succ fuel =>
          have none : Hellfire.strtok bytes = none :=
            Hellfire.strtok_blank fun c member => delimits_path c ▸ delimiters c member
          rw [tokensFrom, none]
          rfl
  | @last start before run delimiters nonempty free =>
      intro fuel enough
      have some : 0 < run.length := List.length_pos_of_ne_nil nonempty
      rw [List.length_append] at enough
      obtain ⟨fuel, rfl⟩ := Nat.exists_eq_succ_of_ne_zero (show fuel ≠ 0 by omega)
      have stops : ∀ c ∈ ([] : List UInt8).head?, isDelimiter c = true := fun c first => by cases first
      have token := strtok_segment (fun c member => delimits_path c ▸ delimiters c member) nonempty
        (fun c member => delimits_path c ▸ free c member) stops
      rw [List.append_nil] at token
      rw [tokensFrom, token]
      simp only [List.drop_nil, tokensFrom_nil, List.map_cons, List.map_nil]
  | @next start before run delimiter after runs delimiters nonempty free stop _ ih =>
      intro fuel enough
      simp only [List.length_append, List.length_cons] at enough
      obtain ⟨fuel, rfl⟩ := Nat.exists_eq_succ_of_ne_zero (show fuel ≠ 0 by omega)
      have stops : ∀ c ∈ (delimiter :: after).head?, isDelimiter c = true := by
        intro c first
        cases first
        exact delimits_path delimiter ▸ stop
      have token := strtok_segment (fun c member => delimits_path c ▸ delimiters c member) nonempty
        (fun c member => delimits_path c ▸ free c member) stops
      rw [tokensFrom, token]
      simp only [List.drop_one, List.tail_cons, List.map_cons, ih fuel (by omega)]

theorem path_calls (path : CString) (memory : Memory) (s : Nat) (last : Option Nat)
    (holds : holdsString memory s path.bytes = true) (calls : Nat) :
    ∃ results final,
      strtokCalls (s + path.bytes.length) pathDelimiters (some s :: List.replicate calls none)
          ⟨memory, last⟩ = some (results, final) ∧
        ∀ k ≤ calls, match path.tokens[k]? with
          | some token => ∃ place, results[k]? = some (some place) ∧
              holdsString final.memory place token = true
          | none => results[k]? = some none := by
  obtain ⟨runs, splits⟩ := Splits.exists (delimits pathDelimiters) path.bytes.length s path.bytes
    (Nat.le_refl _)
  obtain ⟨results, final, ends, answers⟩ := calls_spec splits (calls + 1) memory path.ended holds
  rw [List.replicate_succ] at ends
  refine ⟨results, final, (calls_first _ _ _ _ _).trans ends, fun k within => ?_⟩
  have tokens : path.tokens = runs.map Prod.snd := tokensFrom_splits splits _ (Nat.le_refl _)
  have returned : results[k]? = some (runs[k]?.map Prod.fst) := by
    rw [answers.returned, List.getElem?_map, List.getElem?_range (by omega)]
    rfl
  rw [tokens, List.getElem?_map, returned]
  cases found : runs[k]? with
  | none => rfl
  | some token => exact ⟨token.1, rfl, answers.ended k (by omega) token found⟩

end Paths

end Hellfire.Libc
