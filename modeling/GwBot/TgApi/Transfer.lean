import GwBot.TgApi.Calls

/-!
# Whatever becomes of a transfer

A response can come without a byte, whole, or break off after some of it, or after the write function has dropped the buffer. Both calls
free the buffer of a transfer that ends well and leave that of one that does not; and `tgapi_call_get_updates` hands `NULL` to the parser
when a transfer ends well without a byte.
-/

namespace GwBot

open Lib

variable {mem₀ mem mem' : Mem} {d d' : TgapiCurlData} {body : List UInt8}

/-! ## The transfer -/

/-- What becomes of the buffer, from the sizes of the pieces alone: whether every piece is taken, and the size of the block that is left.
`size` is that of the block before, and `len` what it holds. -/
def bufferFate (size : Option Nat) (len : Nat) : List (CurlWriteEnv × CurlChunk) → Bool × Option Nat
  | [] => (true, size)
  | (env, chunk) :: calls =>
    if env.Suffices size (len + chunk.ptr.length + 1) then
      bufferFate (some (newSize (size.getD 4096) (len + chunk.ptr.length + 1))) (len + chunk.ptr.length) calls
    else if chunk.ptr = [] then bufferFate none len calls
    else (false, none)

/-- A block that is there has room for an empty piece. -/
theorem Collected.suffices_nil (h : Collected mem₀ mem d body) {buf : CurlBuffer} (hd : d.data = some buf) (env : CurlWriteEnv) :
    env.Suffices d.size (body.length + ([] : List UInt8).length + 1) := by
  have hsize : d.size = some buf.block.size := by rw [TgapiCurlData.size, hd]; rfl
  have hroom := (h.room buf hd).room
  rw [hsize]
  exact ⟨by simp, fun hlt => absurd (show buf.block.size < body.length + 1 from hlt) (Nat.not_lt.2 hroom)⟩

/-- `curl_easy_perform` leaves the buffer with the whole body, or with what the write function has left when it was short. -/
theorem curlEasyPerform_cases (h : Collected mem₀ mem d body) (res : Nat) (calls : List (CurlWriteEnv × CurlChunk)) :
    ∃ mem' d', ((bufferFate d.size body.length calls).1 = true ∧ curlEasyPerform res calls mem d = some (mem', d', res) ∧
        d'.size = (bufferFate d.size body.length calls).2 ∧ Collected mem₀ mem' d' (body ++ bodyOf calls)) ∨
      (bufferFate d.size body.length calls = (false, none) ∧ curlEasyPerform res calls mem d = some (mem', d', CURLE_WRITE_ERROR) ∧
        d'.data = none ∧ Ledger mem₀ mem' []) := by
  induction calls generalizing mem d body with
  | nil => exact ⟨mem, d, Or.inl ⟨rfl, rfl, rfl, by rwa [bodyOf, List.flatMap_nil, List.append_nil]⟩⟩
  | cons call calls ih =>
    obtain ⟨env, chunk⟩ := call
    have hbody : body ++ bodyOf ((env, chunk) :: calls) = body ++ chunk.ptr ++ bodyOf calls := by
      rw [List.append_assoc]
      rfl
    obtain ⟨mem₁, d₁, hw, -, hsuff, hsize, hcol⟩ | ⟨mem₁, d₁, hw, -, hd₁, hlen, hsuff, hl, -⟩ := curlWrite_cases h env chunk
    · -- the piece is taken
      have hgo : curlEasyPerform res ((env, chunk) :: calls) mem d = curlEasyPerform res calls mem₁ d₁ := by
        rw [curlEasyPerform, tgapiCurlWrite, hw]
        exact if_neg (not_not.2 rfl)
      have hfate : bufferFate d.size body.length ((env, chunk) :: calls) = bufferFate d₁.size (body ++ chunk.ptr).length calls := by
        rw [bufferFate, if_pos hsuff, hsize, List.length_append]
      rw [hgo, hfate, hbody]
      exact ih hcol
    · by_cases hnil : chunk.ptr = []
      · -- an empty piece: that there is no memory for it is not a short return
        have hreal : chunk.realSize = 0 := UInt64.toNat_inj.1 (by rw [CurlChunk.realSize, ← chunk.length_ptr, hnil]; rfl)
        have hgo : curlEasyPerform res ((env, chunk) :: calls) mem d = curlEasyPerform res calls mem₁ d₁ := by
          rw [curlEasyPerform, tgapiCurlWrite, hw]
          exact if_neg (not_not.2 hreal.symm)
        have hnone : d.data = none := by
          by_contra hn
          obtain ⟨buf, hd⟩ := Option.ne_none_iff_exists'.1 hn
          exact hsuff (hnil ▸ h.suffices_nil hd env)
        have hfate : bufferFate d.size body.length ((env, chunk) :: calls) = bufferFate d₁.size body.length calls := by
          rw [bufferFate, if_neg hsuff, if_pos hnil, TgapiCurlData.size, hd₁]
          rfl
        have hcol : Collected mem₀ mem₁ d₁ body := by
          refine ⟨?_, hlen ▸ h.len, fun _ => h.empty hnone, fun buf hbuf => ?_, fun buf hbuf => ?_⟩
          · rwa [TgapiCurlData.addr, hd₁]
          · cases hd₁.symm.trans hbuf
          · cases hd₁.symm.trans hbuf
        rw [hgo, hfate, hbody, hnil, List.append_nil]
        exact ih hcol
      · have hreal : (0 : UInt64) ≠ chunk.realSize := fun h0 =>
          hnil (List.length_eq_zero_iff.1 (by rw [chunk.length_ptr, ← CurlChunk.realSize, ← h0]; rfl))
        refine ⟨mem₁, d₁, Or.inr ⟨?_, ?_, hd₁, hl⟩⟩
        · rw [bufferFate, if_neg hsuff, if_neg hnil]
        · rw [curlEasyPerform, tgapiCurlWrite, hw]
          exact if_pos hreal

/-! ## The law -/

namespace CurlTransfer

variable (transfer : CurlTransfer) (J : JsonC) (tok : JsonTokener) (env : ParseEnv) (token : List UInt8) (offset : Int64) (handle ch : Bool)
  (easyEscape : List UInt8 → Int → Option (List UInt8)) (call : TgaCallSendMessage) (mem : Mem)

/-- A call of `tgapi_call_get_updates` is clean: the parser gets the whole body with a NUL after it; when the call returns, each block that
the transfer got has been freed once; and `*updates_p` is written only if it returns 0. -/
structure GetUpdatesClean : Prop where
  parsed : ∀ json len, .parse json len ∈ (transfer.tgapiCallGetUpdates J tok env token offset handle mem).1 →
    json = some (bodyOf transfer.calls ++ [0]) ∧ len = (bodyOf transfer.calls).length + 1
  freed : ∀ mem₁ d ret₁ mem' stored ret, transfer.curlHttpGet handle mem .zero = some (mem₁, d, ret₁) →
    (transfer.tgapiCallGetUpdates J tok env token offset handle mem).2 = some (mem', stored, ret) →
    ∀ a, mem.next ≤ a → a < mem₁.next → mem'.freed.count a = mem.freed.count a + 1
  stored : ∀ mem' stored ret, (transfer.tgapiCallGetUpdates J tok env token offset handle mem).2 = some (mem', stored, ret) →
    stored ≠ none → ret = 0

/-- A call of `tgapi_call_send_message` is clean: it returns, and each block that it got has been freed once. -/
def SendMessageClean : Prop :=
  ∃ mem' ret, (transfer.tgapiCallSendMessage easyEscape token call ch handle mem).2 = some (mem', ret) ∧
    ∀ a, mem.next ≤ a → a < mem'.next → mem'.freed.count a = mem.freed.count a + 1

/-- The transfer ends well. -/
def EndsWell : Prop := (bufferFate none 0 transfer.calls).1 = true ∧ transfer.res = 0

instance : Decidable transfer.EndsWell := inferInstanceAs (Decidable (_ ∧ _))

/-- It leaves a block: a call of the write function has got memory, and no later one was short. -/
def LeavesBlock : Prop := (bufferFate none 0 transfer.calls).2 ≠ none

/-- With a handle, `curl_http_get` returns 0 when the transfer ends well, and leaves the block that it leaves. -/
theorem curlHttpGet_cases : ∃ mem₁ d ret, transfer.curlHttpGet true mem .zero = some (mem₁, d, ret) ∧
    ret = (if transfer.EndsWell then 0 else -1) ∧ (d.data ≠ none ↔ transfer.LeavesBlock) ∧ Ledger mem mem₁ d.addr.toList ∧
    (transfer.EndsWell → Collected mem mem₁ d (bodyOf transfer.calls)) := by
  have hget : ∀ {mem₁ d res}, curlEasyPerform transfer.res transfer.calls mem .zero = some (mem₁, d, res) →
      transfer.curlHttpGet true mem .zero = some (mem₁, d, if res = 0 then 0 else -1) := by
    intro mem₁ d res hp
    simp only [curlHttpGet, Bool.true_eq_false, if_false, hp, ite_not, ne_eq]
    split <;> rfl
  obtain ⟨mem₁, d, ⟨hall, hp, hsize, hcol⟩ | ⟨hfate, hp, hd, hl⟩⟩ := curlEasyPerform_cases (Collected.zero mem) transfer.res transfer.calls
  · change (bufferFate none 0 transfer.calls).1 = true at hall
    refine ⟨mem₁, d, _, hget hp, ?_, ?_, hcol.ledger, fun _ => hcol⟩
    · simp only [EndsWell, and_iff_right hall]
    · change d.size = (bufferFate none 0 transfer.calls).2 at hsize
      rw [LeavesBlock, ← hsize, TgapiCurlData.size, ne_eq, ne_eq, Option.map_eq_none_iff]
  · change bufferFate none 0 transfer.calls = (false, none) at hfate
    refine ⟨mem₁, d, _, hget hp, ?_, ?_, ?_, fun hends => ?_⟩
    · simp only [EndsWell, hfate]
      rfl
    · rw [LeavesBlock, hfate, hd]
      exact iff_of_false (fun h => h rfl) (fun h => h rfl)
    · rwa [TgapiCurlData.addr, hd]
    · rw [EndsWell, hfate] at hends
      cases hends.1

end CurlTransfer

/-- All blocks are freed when none is owned any more. -/
theorem Ledger.freed_once_iff {o : List Nat} (h : Ledger mem mem' o) :
    (∀ a, mem.next ≤ a → a < mem'.next → mem'.freed.count a = mem.freed.count a + 1) ↔ o = [] := by
  obtain ⟨-, -, l, hl, hcount⟩ := h
  constructor
  · intro hfreed
    refine List.eq_nil_iff_forall_not_mem.2 fun a ha => ?_
    have hpos := List.count_pos_iff.2 ha
    have hc := hcount a
    split at hc
    · rename_i hin
      have := hfreed a hin.1 hin.2
      rw [hl, List.count_append] at this
      omega
    · omega
  · rintro rfl a hle hlt
    have hc := hcount a
    rw [if_pos ⟨hle, hlt⟩, List.count_nil] at hc
    rw [hl, List.count_append]
    omega

namespace CurlTransfer

variable (transfer : CurlTransfer) (J : JsonC) (tok : JsonTokener) (env : ParseEnv) (token : List UInt8) (offset : Int64) (handle ch : Bool)
  (easyEscape : List UInt8 → Int → Option (List UInt8)) (call : TgaCallSendMessage) (mem : Mem)

/-- A call of `tgapi_call_send_message` is clean exactly when it has no transfer, or one that ends well or leaves no block. -/
theorem sendMessageClean_iff : transfer.SendMessageClean token handle ch easyEscape call mem ↔
    (ch = true → easyEscape call.text (intOfSize call.text.length) ≠ none → handle = true → transfer.LeavesBlock → transfer.EndsWell) := by
  have hnone : ∀ a, mem.next ≤ a → a < mem.next → mem.freed.count a = mem.freed.count a + 1 :=
    fun a h1 h2 => absurd h1 (Nat.not_le.2 h2)
  unfold SendMessageClean tgapiCallSendMessage
  cases ch with
  | false => exact iff_of_true ⟨mem, -ENOMEM, rfl, hnone⟩ nofun
  | true =>
    cases he : easyEscape call.text (intOfSize call.text.length) with
    | none => exact iff_of_true ⟨mem, -ENOMEM, rfl, hnone⟩ (fun _ h => absurd rfl h)
    | some escapeText =>
      cases handle with
      | false => exact iff_of_true ⟨mem, -ENOMEM, rfl, hnone⟩ (fun _ _ => nofun)
      | true =>
        obtain ⟨mem₁, d, ret, hget, hret, hblock, hl, -⟩ := transfer.curlHttpGet_cases mem
        simp only [Bool.true_eq_false, if_false, hget, ne_eq, reduceCtorEq, not_false_eq_true, true_implies]
        by_cases hends : transfer.EndsWell
        · rw [if_pos hends] at hret
          -- `free(data.data)`
          have hfree : Ledger mem (mem₁.free d.addr) [] := by
            cases hd : d.addr with
            | none =>
              rw [hd] at hl
              exact hl
            | some addr =>
              rw [hd] at hl
              exact hl.free
          rw [if_neg (not_not.2 hret)]
          exact iff_of_true ⟨_, _, rfl, hfree.freed_once_iff.2 rfl⟩ fun _ => hends
        · rw [if_neg hends] at hret
          rw [if_pos (by rw [hret]; decide)]
          have haddr : d.addr.toList = [] ↔ ¬transfer.LeavesBlock := by
            rw [← hblock, not_not, TgapiCurlData.addr, Option.toList_eq_nil_iff, Option.map_eq_none_iff]
          constructor
          · rintro ⟨_, _, ⟨⟩, hfreed⟩ hleaves
            exact absurd hleaves (haddr.1 (hl.freed_once_iff.1 hfreed))
          · intro h
            exact ⟨_, _, rfl, hl.freed_once_iff.2 (haddr.2 fun hleaves => hends (h hleaves))⟩

/-- What the buffer holds, up to the NUL. -/
theorem json_eq_of_collected {mem₀ mem : Mem} {d : TgapiCurlData} {body : List UInt8} (h : Collected mem₀ mem d body) {buf : CurlBuffer}
    (hd : d.data = some buf) :
    (d.len + 1).toNat = body.length + 1 ∧ (List.range (d.len + 1).toNat).filterMap buf.block.cells = body ++ [0] := by
  have hlt : body.length < 2 ^ 62 := h.length_lt
  have hlen : (d.len + 1).toNat = (body ++ [0]).length := by
    rw [UInt64.toNat_add, h.len, List.length_append, List.length_singleton, show (1 : UInt64).toNat = 1 from rfl]
    omega
  refine ⟨by rw [hlen, List.length_append, List.length_singleton], ?_⟩
  rw [hlen]
  exact (h.holds buf hd).filterMap_range

/-- A buffer that is freed after the parse has been freed once: the parse frees blocks of its own only. -/
theorem freed_once_of_parse {mem mem₁ mem₂ : Mem} {addr a : Nat} (hl : Ledger mem mem₁ [addr]) (hparse : FreesNew mem₁ mem₂)
    (hle : mem.next ≤ a) (hlt : a < mem₁.next) : (mem₂.free (some addr)).freed.count a = mem.freed.count a + 1 := by
  have hfree := hl.free.freed_once_iff.2 rfl a hle hlt
  obtain ⟨-, l, hl, hbound⟩ := hparse
  have hnot : l.count a = 0 := List.count_eq_zero.2 fun ha => absurd (hbound a ha).1 (Nat.not_le.2 hlt)
  rw [← hfree]
  show (mem₂.freed ++ [addr]).count a = (mem₁.freed ++ [addr]).count a
  rw [hl, List.count_append, List.count_append, List.count_append, hnot, Nat.add_zero]

section GetUpdates

variable {transfer J tok env token offset handle mem} {mem₀ mem₁ : Mem} {d : TgapiCurlData} {ret : Int} {body : List UInt8}
  {buf : CurlBuffer}

/-- Without a response the call returns at once. -/
theorem tgapiCallGetUpdates_failed (hget : transfer.curlHttpGet handle mem .zero = some (mem₁, d, ret)) (hret : ret ≠ 0) :
    transfer.tgapiCallGetUpdates J tok env token offset handle mem =
      ([.httpGet (snprintf 256 (getUpdatesUrl token offset))], some (mem₁, none, ret)) := by
  rw [tgapiCallGetUpdates, hget]
  exact if_pos hret

/-- Of a response without a block the parser gets `NULL`. -/
theorem tgapiCallGetUpdates_null (hget : transfer.curlHttpGet handle mem .zero = some (mem₁, d, 0)) (hd : d.data = none) :
    transfer.tgapiCallGetUpdates J tok env token offset handle mem =
      ([.httpGet (snprintf 256 (getUpdatesUrl token offset)), .parse none (d.len + 1).toNat], none) := by
  rw [tgapiCallGetUpdates, hget]
  simp only [ne_eq, not_true_eq_false, if_false, hd]

/-- Of a response that has a block the parser gets the body and the NUL, and the block is freed when it returns. -/
theorem tgapiCallGetUpdates_whole (hget : transfer.curlHttpGet handle mem .zero = some (mem₁, d, 0)) (hcol : Collected mem₀ mem₁ d body)
    (hd : d.data = some buf) : transfer.tgapiCallGetUpdates J tok env token offset handle mem =
      ([.httpGet (snprintf 256 (getUpdatesUrl token offset)), .parse (some (body ++ [0])) (body.length + 1)],
        (tgapiParseUpdatesLen J tok env (body ++ [0]) (body.length + 1) mem₁).map fun r => (r.1.free (some buf.addr), r.2)) := by
  obtain ⟨hlen, hjson⟩ := json_eq_of_collected hcol hd
  rw [hlen] at hjson
  rw [tgapiCallGetUpdates, hget]
  simp only [ne_eq, not_true_eq_false, if_false, hd, hlen, hjson]

/-- To return without a look at the buffer is clean when there is none. -/
theorem getUpdatesClean_failed_iff (hget : transfer.curlHttpGet handle mem .zero = some (mem₁, d, ret)) (hret : ret ≠ 0)
    (hl : Ledger mem mem₁ d.addr.toList) : transfer.GetUpdatesClean J tok env token offset handle mem ↔ d.data = none := by
  have hcall : transfer.tgapiCallGetUpdates J tok env token offset handle mem = _ := tgapiCallGetUpdates_failed hget hret
  have haddr : d.addr.toList = [] ↔ d.data = none := by
    rw [TgapiCurlData.addr, Option.toList_eq_nil_iff, Option.map_eq_none_iff]
  constructor
  · intro h
    exact haddr.1 (hl.freed_once_iff.1 (h.freed mem₁ d ret mem₁ none ret hget (by rw [hcall])))
  · intro hd
    refine ⟨fun json len hev => ?_, fun mem₁' d' ret₁ mem' stored ret' hget' hres => ?_, fun mem' stored ret' hres hs => ?_⟩
    · rw [hcall] at hev
      simp at hev
    · rw [hget] at hget'
      cases hget'
      rw [hcall] at hres
      cases hres
      exact hl.freed_once_iff.2 (haddr.2 hd)
    · rw [hcall] at hres
      cases hres
      exact absurd rfl hs

/-- To hand `NULL` to the parser is not. -/
theorem not_getUpdatesClean_null (hget : transfer.curlHttpGet handle mem .zero = some (mem₁, d, 0)) (hd : d.data = none) :
    ¬transfer.GetUpdatesClean J tok env token offset handle mem := by
  intro h
  have hev : .parse none (d.len + 1).toNat ∈ (transfer.tgapiCallGetUpdates J tok env token offset handle mem).1 := by
    rw [tgapiCallGetUpdates_null hget hd]
    exact List.mem_cons_of_mem _ List.mem_cons_self
  nomatch (h.parsed _ _ hev).1

/-- To parse the body and free the buffer is. -/
theorem getUpdatesClean_whole (hget : transfer.curlHttpGet handle mem .zero = some (mem₁, d, 0))
    (hcol : Collected mem mem₁ d (bodyOf transfer.calls)) (hd : d.data = some buf) :
    transfer.GetUpdatesClean J tok env token offset handle mem := by
  have hcall : transfer.tgapiCallGetUpdates J tok env token offset handle mem = _ := tgapiCallGetUpdates_whole hget hcol hd
  refine ⟨fun json len hev => ?_, fun mem₁' d' ret₁ mem' stored ret' hget' hres => ?_, fun mem' stored ret' hres => ?_⟩
  · rw [hcall] at hev
    simpa using hev
  · rw [hget] at hget'
    cases hget'
    rw [hcall, Option.map_eq_some_iff] at hres
    obtain ⟨⟨mem₂, stored, ret₂⟩, hparse, ⟨⟩⟩ := hres
    have hl := hcol.ledger
    rw [TgapiCurlData.addr, hd] at hl
    exact fun a hle hlt => freed_once_of_parse hl (tgapiParseUpdatesLenMax_freesNew hparse).1 hle hlt
  · rw [hcall, Option.map_eq_some_iff] at hres
    obtain ⟨⟨mem₂, stored, ret₂⟩, hparse, ⟨⟩⟩ := hres
    exact (tgapiParseUpdatesLenMax_freesNew hparse).2

end GetUpdates

/-- A call of `tgapi_call_get_updates` is clean exactly when it has no transfer, or one that ends well with a block or not without one. -/
theorem getUpdatesClean_iff : transfer.GetUpdatesClean J tok env token offset handle mem ↔
    (handle = true → (transfer.EndsWell ↔ transfer.LeavesBlock)) := by
  cases handle with
  | false =>
    have hget : transfer.curlHttpGet false mem .zero = some (mem, .zero, -ENOMEM) := rfl
    exact iff_of_true ((getUpdatesClean_failed_iff hget (by decide) (Ledger.refl mem)).2 rfl) nofun
  | true =>
    obtain ⟨mem₁, d, ret, hget, hret, hblock, hl, hcol⟩ := transfer.curlHttpGet_cases mem
    rw [forall_prop_of_true rfl, ← hblock]
    by_cases hends : transfer.EndsWell
    · rw [if_pos hends] at hret
      subst hret
      rw [iff_true_left hends]
      cases hd : d.data with
      | none => exact iff_of_false (not_getUpdatesClean_null hget hd) (fun h => h rfl)
      | some buf => exact iff_of_true (getUpdatesClean_whole hget (hcol hends) hd) nofun
    · rw [if_neg hends] at hret
      rw [iff_false_left hends, ne_eq, not_not]
      exact getUpdatesClean_failed_iff hget (by rw [hret]; decide) hl

/-- What the transfer comes to, apart from its buffer. -/
def outcome : CurlHttpGet := if handle = false then .noHandle else if transfer.EndsWell then .done (bodyOf transfer.calls) else .failed

/-- Apart from the buffer, the call does what `tgapi_call_get_updates` does without one; unless the body is empty and there is a block. -/
theorem tgapiCallGetUpdates_eq (hempty : transfer.EndsWell → bodyOf transfer.calls = [] → ¬transfer.LeavesBlock) : ∃ mem₁ p,
    (transfer.tgapiCallGetUpdates J tok env token offset handle mem).2 =
      (GwBot.tgapiCallGetUpdates J tok env mem₁ (transfer.outcome handle)).map fun r => (r.1.free p, r.2) := by
  cases handle with
  | false => exact ⟨mem, none, rfl⟩
  | true =>
    obtain ⟨mem₁, d, ret, hget, hret, hblock, hl, hcol⟩ := transfer.curlHttpGet_cases mem
    rw [outcome, if_neg (by decide)]
    by_cases hends : transfer.EndsWell
    · rw [if_pos hends] at hret ⊢
      subst hret
      cases hd : d.data with
      | none =>
        rw [(hcol hends).empty hd, tgapiCallGetUpdates_null hget hd]
        exact ⟨mem₁, none, rfl⟩
      | some buf =>
        have hne : bodyOf transfer.calls ≠ [] := fun hnil => hempty hends hnil (hblock.1 (by rw [hd]; nofun))
        obtain ⟨b, bs, hb⟩ := List.exists_cons_of_ne_nil hne
        rw [tgapiCallGetUpdates_whole hget (hcol hends) hd, hb]
        exact ⟨mem₁, some buf.addr, rfl⟩
    · rw [if_neg hends] at hret ⊢
      subst hret
      rw [tgapiCallGetUpdates_failed hget (by decide)]
      exact ⟨mem₁, none, rfl⟩

/-- Both calls are clean when they have no transfer. Else `tgapi_call_get_updates` is when the transfer ends well with a block, or not well
without one; and `tgapi_call_send_message` is when it ends well or leaves no block. -/
theorem api_calls_clean_iff : (transfer.GetUpdatesClean J tok env token offset handle mem ↔
      (handle = true → (transfer.EndsWell ↔ transfer.LeavesBlock))) ∧
    (transfer.SendMessageClean token handle ch easyEscape call mem ↔
      (ch = true → easyEscape call.text (intOfSize call.text.length) ≠ none → handle = true → transfer.LeavesBlock → transfer.EndsWell)) :=
  ⟨transfer.getUpdatesClean_iff J tok env token offset handle mem, transfer.sendMessageClean_iff token handle ch easyEscape call mem⟩

/-- A transfer that ends well without a byte, as that of an answer without a body. -/
def noBody : CurlTransfer := ⟨[], 0⟩

/-- A transfer that breaks off after a byte, as with `CURLE_OPERATION_TIMEDOUT`. -/
def brokenOff : CurlTransfer := ⟨[(⟨true, true⟩, firstByte)], 28⟩

/-- The parser gets `NULL` for no body, and both calls leave the buffer of a transfer that breaks off. -/
theorem api_calls_not_clean : ¬noBody.GetUpdatesClean plainJsonC (textTokener bareUpdate) plentyEnv [] 1 true Mem.empty ∧
    ¬brokenOff.GetUpdatesClean plainJsonC (textTokener bareUpdate) plentyEnv [] 1 true Mem.empty ∧
    ¬brokenOff.SendMessageClean [] true true (fun text _ => some text) ⟨1, [], 1⟩ Mem.empty := by
  have hends : noBody.EndsWell ∧ ¬brokenOff.EndsWell := by decide
  have hleaves : ¬noBody.LeavesBlock ∧ brokenOff.LeavesBlock := by
    unfold LeavesBlock
    decide
  refine ⟨fun h => ?_, fun h => ?_, fun h => ?_⟩
  · exact hleaves.1 (((getUpdatesClean_iff _ _ _ _ _ _ _ _).1 h rfl).1 hends.1)
  · exact hends.2 (((getUpdatesClean_iff _ _ _ _ _ _ _ _).1 h rfl).2 hleaves.2)
  · exact hends.2 ((sendMessageClean_iff _ _ _ _ _ _ _).1 h rfl nofun rfl hleaves.2)

end CurlTransfer

end GwBot
