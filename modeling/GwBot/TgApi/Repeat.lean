import GwBot.TgApi.Lifetime
import Mathlib.Data.List.TakeWhile

/-!
# The text that the tokener sees

The loop of `parse_json` goes on while the tokener asks for more text, and has none to give: it hands over the same bytes again, which the
tokener takes for what comes next. So the text that is judged is the bytes any number of times. Of a text that cannot go on, or is no JSON at
all, that is the text itself. One that can go on can be completed by its own beginning, or never end. A number is of that kind even
when it is complete: to the tokener `12` is the beginning of `1212`.
-/

namespace GwBot

/-- JSON, as json-c reads it: the bytes that begin with a complete value, and the bytes that are a proper prefix of a value, with no NUL
reached. The digits of a number are both. -/
structure JsonText where
  complete : List UInt8 → Prop
  properPrefix : List UInt8 → Prop

/-- `INT_MAX`. -/
def INT_MAX : Nat := 2 ^ 31 - 1

/-- `json_tokener_parse_ex` is incremental: `fed` says which bytes a state has taken. A call goes on from there with the bytes that it is
given; it asks for more when all of them are a proper prefix of a value, and else reports success when they begin with a complete one. -/
structure Incremental (tok : JsonTokener) (J : JsonText) (fed : tok.State → List UInt8 → Prop) : Prop where
  new : fed tok.new []
  success_iff : ∀ st bytes json (len : Nat), fed st bytes → len ≤ json.length → len ≤ INT_MAX →
    ((tok.parseEx st json len).2.2 = .success ↔
      J.complete (bytes ++ json.take len) ∧ ¬J.properPrefix (bytes ++ json.take len))
  continue_iff : ∀ st bytes json (len : Nat), fed st bytes → len ≤ json.length → len ≤ INT_MAX →
    ((tok.parseEx st json len).2.2 = .continue ↔ J.properPrefix (bytes ++ json.take len))
  resumes : ∀ st bytes json (len : Nat), fed st bytes → len ≤ json.length → len ≤ INT_MAX →
    (tok.parseEx st json len).2.2 = .continue → fed (tok.parseEx st json len).1 (bytes ++ json.take len)

/-- The bytes `n` times. -/
def times (n : Nat) (bytes : List UInt8) : List UInt8 := (List.replicate n bytes).flatten

@[simp] theorem times_zero (bytes : List UInt8) : times 0 bytes = [] := rfl

@[simp] theorem times_one (bytes : List UInt8) : times 1 bytes = bytes := by simp [times]

theorem times_succ (n : Nat) (bytes : List UInt8) : times (n + 1) bytes = times n bytes ++ bytes := by
  rw [times, List.replicate_succ', List.flatten_append, List.flatten_singleton]
  rfl

theorem intOfSize_of_le {len : Nat} (h : len ≤ INT_MAX) : intOfSize len = len := intOfSize_of_lt (Nat.lt_succ_of_le h)

/-! ## The loop -/

/-- The bytes are asked for again until they have been given `n` times. -/
structure EndsAfter (J : JsonText) (bytes : List UInt8) (n : Nat) : Prop where
  pos : 0 < n
  before : ∀ m, 0 < m → m < n → J.properPrefix (times m bytes)
  ends : ¬J.properPrefix (times n bytes)

theorem EndsAfter.eq {J : JsonText} {bytes : List UInt8} {n n' : Nat} (h : EndsAfter J bytes n) (h' : EndsAfter J bytes n') : n = n' := by
  rcases Nat.lt_trichotomy n n' with hlt | heq | hgt
  · exact absurd (h'.before n h.pos hlt) h.ends
  · exact heq
  · exact absurd (h.before n' h'.pos hgt) h'.ends

variable {tok : JsonTokener} {J : JsonText} {fed : tok.State → List UInt8 → Prop} {json : List UInt8} {len : Nat}

/-- The loop has given the bytes `k` times; it ends when the text is no longer a proper prefix, and succeeds if it is complete then. -/
theorem parseLoop_of_endsAfter (h : Incremental tok J fed) (hlen : len ≤ json.length) (hint : len ≤ INT_MAX) {n : Nat}
    (hends : EndsAfter J (json.take len) n) {fuel k : Nat} {st : tok.State} (hk : k < n) (hfuel : n ≤ k + fuel)
    (hfed : fed st (times k (json.take len))) :
    ∃ jobj jerr, parseLoop tok json len fuel st = some (jobj, jerr) ∧ (jerr = .success ↔ J.complete (times n (json.take len))) := by
  induction fuel generalizing k st with
  | zero => omega
  | succ fuel ih =>
    have hcont := h.continue_iff st _ json len hfed hlen hint
    have hsucc := h.success_iff st _ json len hfed hlen hint
    rw [← times_succ] at hcont hsucc
    rw [parseLoop]
    by_cases hkn : k + 1 = n
    · rw [hkn] at hcont hsucc
      have hnot : (tok.parseEx st json len).2.2 ≠ .continue := fun hc => hends.ends (hcont.1 hc)
      exact ⟨_, _, if_neg hnot, hsucc.trans (and_iff_left hends.ends)⟩
    · have hgo := hcont.2 (hends.before (k + 1) (Nat.succ_pos k) (by omega))
      have hres := h.resumes st _ json len hfed hlen hint hgo
      rw [← times_succ] at hres
      obtain ⟨jobj, jerr, heq, hiff⟩ := ih (k := k + 1) (by omega) (by omega) hres
      exact ⟨jobj, jerr, (if_pos hgo).trans heq, hiff⟩

/-- A loop that ends has given the bytes until they are no longer a proper prefix. -/
theorem endsAfter_of_parseLoop (h : Incremental tok J fed) (hlen : len ≤ json.length) (hint : len ≤ INT_MAX) {fuel k : Nat} {st : tok.State}
    {r : JsonObject × JsonTokenerError} (hfed : fed st (times k (json.take len)))
    (hbefore : ∀ m, 0 < m → m ≤ k → J.properPrefix (times m (json.take len))) (hr : parseLoop tok json len fuel st = some r) :
    ∃ n, n ≤ k + fuel ∧ EndsAfter J (json.take len) n := by
  induction fuel generalizing k st with
  | zero => nomatch hr
  | succ fuel ih =>
    have hcont := h.continue_iff st _ json len hfed hlen hint
    rw [← times_succ] at hcont
    by_cases hgo : (tok.parseEx st json len).2.2 = .continue
    · have hres := h.resumes st _ json len hfed hlen hint hgo
      rw [← times_succ] at hres
      rw [parseLoop] at hr
      have hbefore' : ∀ m, 0 < m → m ≤ k + 1 → J.properPrefix (times m (json.take len)) := by
        intro m hm hmk
        rcases Nat.lt_or_ge m (k + 1) with hlt | hge
        · exact hbefore m hm (Nat.lt_succ_iff.1 hlt)
        · rw [Nat.le_antisymm hmk hge]
          exact hcont.1 hgo
      obtain ⟨n, hn, hends⟩ := ih hres hbefore' ((if_pos hgo).symm.trans hr)
      exact ⟨n, by omega, hends⟩
    · exact ⟨k + 1, by omega, Nat.succ_pos k, fun m hm hlt => hbefore m hm (Nat.lt_succ_iff.1 hlt), fun hp => hgo (hcont.2 hp)⟩

/-! ## parse_json -/

/-- `parse_json` ends with the last repetition, with a value when that makes the text complete. -/
theorem parseJson_of_endsAfter (h : Incremental tok J fed) (hlen : len ≤ json.length) (hint : len ≤ INT_MAX) {n fuel : Nat}
    (hends : EndsAfter J (json.take len) n) (hfuel : n ≤ fuel) :
    ∃ r, parseJson tok fuel true json len = some r ∧ ((∃ jobj, r = .ok jobj) ↔ J.complete (times n (json.take len))) := by
  obtain ⟨jobj, jerr, heq, hiff⟩ := parseLoop_of_endsAfter h hlen hint hends hends.pos (Nat.le_trans hfuel (Nat.le_add_left fuel 0)) h.new
  rw [parseJson, if_neg (by decide), intOfSize_of_le hint, heq]
  by_cases hjerr : jerr = .success
  · exact ⟨.ok jobj, if_pos hjerr, iff_of_true ⟨jobj, rfl⟩ (hiff.1 hjerr)⟩
  · exact ⟨.error (-EINVAL), if_neg hjerr, iff_of_false (by simp) (fun hc => hjerr (hiff.2 hc))⟩

theorem endsAfter_of_parseJson (h : Incremental tok J fed) (hlen : len ≤ json.length) (hint : len ≤ INT_MAX) {fuel : Nat}
    {r : Except Int JsonObject} (hr : parseJson tok fuel true json len = some r) : ∃ n, n ≤ fuel ∧ EndsAfter J (json.take len) n := by
  rw [parseJson, if_neg (by decide), intOfSize_of_le hint] at hr
  split at hr
  · cases hr
  · rename_i heq
    obtain ⟨n, hn, hends⟩ := endsAfter_of_parseLoop h hlen hint (k := 0) h.new (fun m hm h0 => absurd hm (by omega)) heq
    exact ⟨n, by omega, hends⟩

/-- `parse_json` ends, and takes only a text whose own bytes begin with a complete value. -/
def JudgesItsBytes (tok : JsonTokener) (J : JsonText) (tokenerNew : Bool) (json : List UInt8) (len : Nat) : Prop :=
  (∃ fuel, (parseJson tok fuel tokenerNew json len).isSome = true) ∧
    ∀ fuel jobj, parseJson tok fuel tokenerNew json len = some (.ok jobj) → J.complete (json.take len)

/-- The bytes are no proper prefix of a value; or some repetition of them is none either, and begins with a complete value only if they do
so themselves. -/
def NotCompletedByItself (J : JsonText) (bytes : List UInt8) : Prop :=
  ¬J.properPrefix bytes ∨ ∃ n, 1 < n ∧ EndsAfter J bytes n ∧ (J.complete (times n bytes) → J.complete bytes)

/-- The bytes are asked for again only to end in no value, or where they begin with one. -/
theorem notCompletedByItself_iff {bytes : List UInt8} :
    NotCompletedByItself J bytes ↔ ∃ n, EndsAfter J bytes n ∧ (J.complete (times n bytes) → J.complete bytes) := by
  constructor
  · rintro (hp | ⟨n, -, hends, hc⟩)
    · exact ⟨1, ⟨Nat.one_pos, fun m hm hlt => absurd hm (by omega), by rwa [times_one]⟩, fun hc => by rwa [times_one] at hc⟩
    · exact ⟨n, hends, hc⟩
  · rintro ⟨n, hends, hc⟩
    rcases Nat.lt_or_ge 1 n with hn | hn
    · exact Or.inr ⟨n, hn, hends, hc⟩
    · have := hends.ends
      rw [Nat.le_antisymm hn hends.pos, times_one] at this
      exact Or.inl this

/-- With a tokener, `parse_json` ends with the bytes that it was given or without a value. -/
theorem judgesItsBytes_iff_endsAfter (h : Incremental tok J fed) (hlen : len ≤ json.length) (hint : len ≤ INT_MAX) :
    JudgesItsBytes tok J true json len ↔
      ∃ n, EndsAfter J (json.take len) n ∧ (J.complete (times n (json.take len)) → J.complete (json.take len)) := by
  constructor
  · rintro ⟨⟨fuel, hsome⟩, hok⟩
    obtain ⟨r, hr⟩ := Option.isSome_iff_exists.1 hsome
    obtain ⟨n, -, hends⟩ := endsAfter_of_parseJson h hlen hint hr
    refine ⟨n, hends, fun hc => ?_⟩
    obtain ⟨r, hr, hiff⟩ := parseJson_of_endsAfter h hlen hint hends (Nat.le_refl n)
    obtain ⟨jobj, rfl⟩ := hiff.2 hc
    exact hok n jobj hr
  · rintro ⟨n, hends, hown⟩
    refine ⟨⟨n, ?_⟩, fun fuel jobj hok => ?_⟩
    · obtain ⟨r, hr, -⟩ := parseJson_of_endsAfter h hlen hint hends (Nat.le_refl n)
      rw [hr]
      rfl
    · obtain ⟨n', hn', hends'⟩ := endsAfter_of_parseJson h hlen hint hok
      obtain rfl := hends.eq hends'
      obtain ⟨r, hr, hiff⟩ := parseJson_of_endsAfter h hlen hint hends hn'
      rw [hr] at hok
      exact hown (hiff.1 ⟨jobj, Option.some.inj hok⟩)

/-- `parse_json` ends and judges its own bytes exactly when there is no tokener, or repeating the bytes neither completes a value nor goes
on for ever. -/
theorem judgesItsBytes_iff (h : Incremental tok J fed) (hlen : len ≤ json.length) (hint : len ≤ INT_MAX) (tokenerNew : Bool) :
    JudgesItsBytes tok J tokenerNew json len ↔ tokenerNew = false ∨ NotCompletedByItself J (json.take len) := by
  cases tokenerNew with
  | false =>
    refine iff_of_true ⟨⟨0, rfl⟩, fun fuel jobj hok => ?_⟩ (Or.inl rfl)
    rw [parseJson, if_pos rfl] at hok
    cases hok
  | true =>
    rw [or_iff_right (by decide), notCompletedByItself_iff]
    exact judgesItsBytes_iff_endsAfter h hlen hint

/-! ## Strings and numbers -/

/-- The text after its white space. -/
def skipSpace (bytes : List UInt8) : List UInt8 := bytes.dropWhile fun c => c = 32 || c = 9 || c = 10 || c = 13

/-- The byte is a decimal digit. -/
def isDecimal (c : UInt8) : Bool := 48 ≤ c && c ≤ 57

/-- What json-c says of a text of one string without escapes, or of one number without sign, fraction and exponent. After the digits of a
number others may come. -/
def scalarError (bytes : List UInt8) : JsonTokenerError :=
  match skipSpace bytes with
  | [] => .continue
  | c :: rest =>
    if c = 34 then
      match rest.dropWhile fun c => c ≠ 34 && c ≠ 0 with
      | [] => .continue
      | c :: _ => if c = 34 then .success else .error 1
    else if isDecimal c then
      match rest.dropWhile isDecimal with
      | [] => .continue
      | _ => .success
    else .error 3

/-- The text begins with a number. -/
def beginsWithNumber (bytes : List UInt8) : Bool := (skipSpace bytes).head?.any isDecimal

/-- The string or the number. -/
def scalarValue (bytes : List UInt8) : JsonObject :=
  if beginsWithNumber bytes then
    .node 0 (.int (((skipSpace bytes).takeWhile isDecimal).foldl (fun n c => 10 * n + (c.toNat - 48 : Nat)) 0)) []
  else .node 0 (.string (String.ofList ((((skipSpace bytes).drop 1).takeWhile (· ≠ 34)).map fun c => Char.ofNat c.toNat))) []

/-- A tokener of such texts. -/
def scalarTokener : JsonTokener where
  State := List UInt8
  new := []
  parseEx st json len := (st ++ json.take len.toNat, scalarValue (st ++ json.take len.toNat), scalarError (st ++ json.take len.toNat))

/-- JSON, as that tokener reads it. -/
def scalarText : JsonText :=
  ⟨fun bytes => scalarError bytes = .success ∨ beginsWithNumber bytes = true, fun bytes => scalarError bytes = .continue⟩

/-- A number is read to its end, or can go on. -/
theorem scalarError_of_number {bytes : List UInt8} (h : beginsWithNumber bytes = true) (hno : scalarError bytes ≠ .continue) :
    scalarError bytes = .success := by
  unfold beginsWithNumber at h
  unfold scalarError at hno ⊢
  split at hno
  · exact absurd rfl hno
  · rename_i c rest hc
    rw [hc, List.head?_cons, Option.any_some] at h
    have hquote : c ≠ 34 := by
      rintro rfl
      exact absurd h (by decide)
    simp only [hquote, h, if_false, if_true] at hno ⊢
    split at hno
    · exact absurd rfl hno
    · rfl

theorem scalarTokener_incremental : Incremental scalarTokener scalarText fun st bytes => st = bytes := by
  refine ⟨rfl, ?_, ?_, ?_⟩
  · rintro st bytes json len rfl - -
    show scalarError _ = .success ↔ (scalarError _ = .success ∨ _) ∧ ¬scalarError _ = .continue
    constructor
    · intro hs
      exact ⟨Or.inl hs, fun hc => nomatch hs.symm.trans hc⟩
    · rintro ⟨hs | hn, hno⟩
      · exact hs
      · exact scalarError_of_number hn hno
  · rintro st bytes json len rfl - -
    exact Iff.rfl
  · rintro st bytes json len rfl - - -
    rfl

theorem times_twelve_digits (n : Nat) : ∀ c ∈ times n [49, 50], isDecimal c = true := by
  intro c hc
  rw [times, List.mem_flatten] at hc
  obtain ⟨l, hl, hc⟩ := hc
  rw [List.eq_of_mem_replicate hl] at hc
  rcases List.mem_cons.1 hc with rfl | hc
  · rfl
  · rw [List.mem_singleton.1 hc]
    rfl

/-- Digits can go on. -/
theorem times_twelve_continue (n : Nat) : scalarError (times n [49, 50]) = .continue := by
  cases n with
  | zero => rfl
  | succ n =>
    have hrest : (50 :: times n [49, 50]).dropWhile isDecimal = [] := by
      rw [List.dropWhile_eq_nil_iff]
      intro c hc
      rcases List.mem_cons.1 hc with rfl | hc
      · rfl
      · exact times_twelve_digits n c hc
    show (match (50 :: times n [49, 50]).dropWhile isDecimal with
      | [] => JsonTokenerError.continue
      | _ => .success) = .continue
    rw [hrest]

/-- The number 12 with the NUL after it is judged by its bytes; without it `parse_json` goes on for ever, though they begin with a complete
value. -/
theorem judgesItsBytes_iff_number : JudgesItsBytes scalarTokener scalarText true [49, 50, 0] 3 ∧
    (∃ jobj, parseJson scalarTokener 1 true [49, 50, 0] 3 = some (.ok jobj)) ∧
    scalarText.complete [49, 50] ∧ ¬JudgesItsBytes scalarTokener scalarText true [49, 50] 2 := by
  refine ⟨?_, ⟨_, rfl⟩, Or.inr rfl, fun h => ?_⟩
  · refine (judgesItsBytes_iff scalarTokener_incremental (by decide) (by decide) true).2 (Or.inr (Or.inl ?_))
    show ¬scalarError [49, 50, 0] = .continue
    decide
  · rcases (judgesItsBytes_iff scalarTokener_incremental (by decide) (by decide) true).1 h with hno | hno | ⟨n, -, hends, -⟩
    · nomatch hno
    · exact hno (times_twelve_continue 1)
    · exact hends.ends (times_twelve_continue n)

theorem skipSpace_times (n : Nat) : skipSpace (times n [32]) = [] := by
  induction n with
  | zero => rfl
  | succ n ih =>
    rw [times, List.replicate_succ, List.flatten_cons]
    exact ih

/-- Of a string that breaks off, the second time around is its end: `"a` is taken for the string of `"a"a`. And of white space there is no
end. -/
theorem completed_by_itself : (∃ jobj, parseJson scalarTokener 2 true [34, 97] 2 = some (.ok jobj)) ∧
    ¬JudgesItsBytes scalarTokener scalarText true [34, 97] 2 ∧
    (∀ fuel, parseJson scalarTokener fuel true [32] 1 = none) ∧ ¬JudgesItsBytes scalarTokener scalarText true [32] 1 := by
  have hstring : ∃ jobj, parseJson scalarTokener 2 true [34, 97] 2 = some (.ok jobj) := ⟨_, rfl⟩
  have hspace : ∀ fuel, parseJson scalarTokener fuel true [32] 1 = none := by
    intro fuel
    rw [Option.eq_none_iff_forall_ne_some]
    intro r hr
    obtain ⟨n, -, hends⟩ := endsAfter_of_parseJson scalarTokener_incremental (by decide) (by decide) hr
    refine hends.ends ?_
    show scalarError (times n [32]) = .continue
    rw [scalarError, skipSpace_times]
  refine ⟨hstring, fun h => ?_, hspace, fun h => ?_⟩
  · obtain ⟨jobj, hok⟩ := hstring
    have hc : scalarError [34, 97] = .success ∨ beginsWithNumber [34, 97] = true := h.2 2 jobj hok
    exact absurd hc (by decide)
  · obtain ⟨fuel, hsome⟩ := h.1
    rw [hspace fuel] at hsome
    nomatch hsome

end GwBot
