import GwBot.Lib.Block
import GwBot.TgApi.Parse

/-!
# The buffer of a response

libcurl hands the body of a response over in pieces, and `tgapi_curl_write` puts them one after the other into a block that it makes, and
makes larger, as it needs to. The block always has room for one byte more, where the NUL stands that ends the body. A call that gets no
memory drops the block with all that is in it.
-/

namespace GwBot

open Lib

/-! ## The write function -/

/-- What no object in memory is as large as: no address space has so many bytes. -/
def addressSpace : Nat := 2 ^ 62

/-- A piece of the body: `nmemb` items of `size` bytes at `ptr`. -/
structure CurlChunk where
  ptr : List UInt8
  size : UInt64
  nmemb : UInt64
  length_ptr : ptr.length = (size * nmemb).toNat
  length_lt : ptr.length < addressSpace

/-- `real_size`. -/
def CurlChunk.realSize (chunk : CurlChunk) : UInt64 := chunk.size * chunk.nmemb

/-- The block of a response, and its address. -/
structure CurlBuffer where
  addr : Nat
  block : Block UInt8

/-- `struct curl_data`. -/
structure TgapiCurlData where
  data : Option CurlBuffer
  len : UInt64
  allocated : UInt64
  err : Int

/-- A `struct curl_data` that is all zero. -/
def TgapiCurlData.zero : TgapiCurlData := ⟨none, 0, 0, 0⟩

/-- `data` as a pointer. -/
def TgapiCurlData.addr (d : TgapiCurlData) : Option Nat := d.data.map CurlBuffer.addr

/-- Whether a call of `tgapi_curl_write` gets the memory that it asks for. -/
structure CurlWriteEnv where
  malloc : Bool
  realloc : Bool

/-- The block that a call finds, or that it makes when there is none, and `allocated`; `none` when it gets no memory. -/
def firstBlock (d : TgapiCurlData) (malloc : Bool) (mem : Mem) : Mem × Option (CurlBuffer × UInt64) :=
  match d.data with
  | some buf => (mem, some (buf, d.allocated))
  | none =>
    match mem.malloc malloc with
    | (mem, none) => (mem, none)
    | (mem, some addr) => (mem, some (⟨addr, Block.malloc 4096⟩, 4096))

/-- The block with room for `new_len` bytes, and `allocated`; `none` when it cannot grow, where it is freed. `realloc` moves the block, and
makes none that is larger than memory. -/
def growBlock (buf : CurlBuffer) (allocated newLen : UInt64) (realloc : Bool) (mem : Mem) : Mem × Option (CurlBuffer × UInt64) :=
  if allocated < newLen then
    let newAllocated := allocated * 2 + newLen
    match mem.malloc (realloc && decide (newAllocated.toNat < addressSpace)) with
    | (mem, none) => (mem.free (some buf.addr), none)
    | (mem, some addr) => (mem.free (some buf.addr), some (⟨addr, buf.block.realloc 1 newAllocated.toNat⟩, newAllocated))
  else (mem, some (buf, allocated))

/-- `tgapi_curl_write` with a `struct curl_data`: what it returns; `none` when it would store outside of the block. -/
def curlWrite (env : CurlWriteEnv) (chunk : CurlChunk) (mem : Mem) (d : TgapiCurlData) : Option (Mem × TgapiCurlData × UInt64) :=
  match firstBlock d env.malloc mem with
  | (mem, none) => some (mem, { d with allocated := 4096, err := -ENOMEM }, 0)
  | (mem, some (buf, allocated)) =>
    match growBlock buf allocated (d.len + chunk.realSize + 1) env.realloc mem with
    | (mem, none) => some (mem, { d with data := none, allocated := allocated, err := -ENOMEM }, 0)
    | (mem, some (buf, allocated)) =>
      match buf.block.copy 1 d.len.toNat chunk.ptr with
      | none => none
      | some block =>
        match block.store 1 (d.len + chunk.realSize).toNat 0 with
        | none => none
        | some block =>
          some (mem, { d with data := some ⟨buf.addr, block⟩, len := d.len + chunk.realSize, allocated := allocated }, chunk.realSize)

/-- `tgapi_curl_write`; `none` for `dd` is `NULL`. -/
def tgapiCurlWrite (env : CurlWriteEnv) (chunk : CurlChunk) (mem : Mem) :
    Option TgapiCurlData → Option (Mem × Option TgapiCurlData × UInt64)
  | none => some (mem, none, chunk.realSize)
  | some d => (curlWrite env chunk mem d).map fun r => (r.1, some r.2.1, r.2.2)

/-! ## One call -/

/-- The block has the size `allocated`, and holds the body with room for the NUL. -/
structure CurlBuffer.HasRoom (buf : CurlBuffer) (allocated : UInt64) (body : List UInt8) : Prop where
  holds : buf.block.Holds body
  size : allocated.toNat = buf.block.size
  room : body.length + 1 ≤ buf.block.size
  size_lt : buf.block.size < addressSpace

/-- What a `struct curl_data` has collected: its block, if there is one, is the only one that is not freed, and holds the body and a NUL. -/
structure Collected (mem₀ mem : Mem) (d : TgapiCurlData) (body : List UInt8) : Prop where
  ledger : Ledger mem₀ mem d.addr.toList
  len : d.len.toNat = body.length
  empty : d.data = none → body = []
  room : ∀ buf, d.data = some buf → buf.HasRoom d.allocated body
  holds : ∀ buf, d.data = some buf → buf.block.Holds (body ++ [0])

/-- The size of the block before a call, if there is one. -/
def TgapiCurlData.size (d : TgapiCurlData) : Option Nat := d.data.map fun buf => buf.block.size

/-- The size that a block gets when it has to hold `new_len` bytes. -/
def newSize (size newLen : Nat) : Nat := if size < newLen then size * 2 + newLen else size

/-- A call that has `new_len` bytes to hold gets the memory that it asks for. -/
def CurlWriteEnv.Suffices (env : CurlWriteEnv) (size : Option Nat) (newLen : Nat) : Prop :=
  (size = none → env.malloc = true) ∧
    (size.getD 4096 < newLen → env.realloc = true ∧ newSize (size.getD 4096) newLen < addressSpace)

instance (env : CurlWriteEnv) (size : Option Nat) (newLen : Nat) : Decidable (env.Suffices size newLen) :=
  inferInstanceAs (Decidable (_ ∧ _))

/-- An allocation of the call fails: `malloc` when there is no block, or `realloc` when it is too small. -/
def CurlWriteEnv.Refuses (env : CurlWriteEnv) (size : Option Nat) (newLen : Nat) : Prop :=
  (size = none ∧ env.malloc = false) ∨ (size.getD 4096 < newLen ∧ env.realloc = false)

/-- Below the size of memory, a call gets its memory unless an allocation fails. -/
theorem CurlWriteEnv.Refuses.of_not_suffices {env : CurlWriteEnv} {size : Option Nat} {newLen : Nat} (h : ¬env.Suffices size newLen)
    (hlt : newLen ≤ 2 ^ 60) : env.Refuses size newLen := by
  by_contra hr
  obtain ⟨hmalloc, hrealloc⟩ := not_or.1 hr
  refine h ⟨fun hn => ?_, fun hgrow => ⟨?_, ?_⟩⟩
  · exact Bool.of_not_eq_false fun hf => hmalloc ⟨hn, hf⟩
  · exact Bool.of_not_eq_false fun hf => hrealloc ⟨hgrow, hf⟩
  · rw [newSize, if_pos hgrow]
    have : addressSpace = 2 ^ 62 := rfl
    omega

variable {mem₀ mem mem' : Mem} {d d' : TgapiCurlData} {body : List UInt8}

theorem Collected.zero (mem : Mem) : Collected mem mem .zero [] :=
  ⟨Ledger.refl mem, rfl, fun _ => rfl, nofun, nofun⟩

theorem Collected.length_lt (h : Collected mem₀ mem d body) : body.length < addressSpace := by
  cases hd : d.data with
  | none =>
    rw [h.empty hd]
    decide
  | some buf =>
    have := (h.room buf hd).room
    have := (h.room buf hd).size_lt
    omega

/-- A call finds a block, or makes one. -/
theorem firstBlock_cases (h : Collected mem₀ mem d body) (malloc : Bool) :
    (d.data = none ∧ malloc = false ∧ firstBlock d malloc mem = (mem, none)) ∨
    ∃ mem₁ buf allocated, firstBlock d malloc mem = (mem₁, some (buf, allocated)) ∧ (d.data = none → malloc = true) ∧
      Ledger mem₀ mem₁ [buf.addr] ∧ buf.HasRoom allocated body ∧ buf.block.size = d.size.getD 4096 ∧
      (∀ buf', d.data = some buf' → buf = buf' ∧ mem₁ = mem) := by
  unfold firstBlock
  cases hd : d.data with
  | none =>
    have hl : Ledger mem₀ mem [] := by
      have := h.ledger
      rwa [TgapiCurlData.addr, hd] at this
    cases hm : mem.malloc malloc with
    | mk mem₁ p =>
      cases p with
      | none =>
        obtain ⟨hfalse, rfl⟩ := Ledger.malloc_none hm
        exact Or.inl ⟨rfl, hfalse, rfl⟩
      | some addr =>
        obtain ⟨htrue, hled⟩ := Ledger.malloc hm
        obtain rfl := h.empty hd
        refine Or.inr ⟨mem₁, _, _, rfl, fun _ => htrue, hl.trans hled, ⟨nofun, rfl, ?_, ?_⟩, ?_, nofun⟩
        · show 0 + 1 ≤ 4096
          decide
        · show 4096 < 2 ^ 62
          decide
        · rw [TgapiCurlData.size, hd]
          rfl
  | some buf =>
    have hl : Ledger mem₀ mem [buf.addr] := by
      have := h.ledger
      rwa [TgapiCurlData.addr, hd] at this
    refine Or.inr ⟨mem, buf, d.allocated, rfl, nofun, hl, h.room buf hd, ?_, ?_⟩
    · rw [TgapiCurlData.size, hd]
      rfl
    · rintro buf' ⟨⟩
      exact ⟨rfl, rfl⟩

/-- A block has room for `new_len` bytes, or grows, or is dropped. -/
theorem growBlock_cases {buf : CurlBuffer} {allocated : UInt64} (hl : Ledger mem₀ mem [buf.addr]) (h : buf.HasRoom allocated body)
    (newLen : UInt64) (realloc : Bool) (hlt : newLen.toNat < 2 ^ 63) (hle : body.length + 1 ≤ newLen.toNat) :
    (buf.block.size < newLen.toNat ∧ ¬(realloc = true ∧ newSize buf.block.size newLen.toNat < addressSpace) ∧
      growBlock buf allocated newLen realloc mem = (mem.free (some buf.addr), none)) ∨
    ∃ mem₁ buf₁ allocated₁, growBlock buf allocated newLen realloc mem = (mem₁, some (buf₁, allocated₁)) ∧
      (buf.block.size < newLen.toNat → realloc = true ∧ newSize buf.block.size newLen.toNat < addressSpace) ∧
      Ledger mem₀ mem₁ [buf₁.addr] ∧ buf₁.block.Holds body ∧ allocated₁.toNat = buf₁.block.size ∧ newLen.toNat ≤ buf₁.block.size ∧
      buf₁.block.size < addressSpace ∧ buf₁.block.size = newSize buf.block.size newLen.toNat := by
  obtain ⟨hh, hs, hr, hm⟩ := h
  have haddress : addressSpace = 2 ^ 62 := rfl
  unfold growBlock
  by_cases hgrow : allocated < newLen
  · have hgrow' : buf.block.size < newLen.toNat := hs ▸ UInt64.lt_iff_toNat_lt.1 hgrow
    have hsize : newSize buf.block.size newLen.toNat = buf.block.size * 2 + newLen.toNat := if_pos hgrow'
    have hnew : (allocated * 2 + newLen).toNat = newSize buf.block.size newLen.toNat := by
      rw [hsize, UInt64.toNat_add, UInt64.toNat_mul, hs, show (2 : UInt64).toNat = 2 from rfl]
      omega
    rw [if_pos hgrow]
    simp only [hnew]
    cases hmal : mem.malloc (realloc && decide (newSize buf.block.size newLen.toNat < addressSpace)) with
    | mk mem₁ p =>
      cases p with
      | none =>
        obtain ⟨hfalse, rfl⟩ := Ledger.malloc_none hmal
        exact Or.inl ⟨hgrow', fun hok => by simp [hok] at hfalse, rfl⟩
      | some addr =>
        obtain ⟨htrue, hled⟩ := Ledger.malloc hmal
        obtain ⟨htrue, hfits⟩ := Bool.and_eq_true_iff.1 htrue
        have hfits := of_decide_eq_true hfits
        refine Or.inr ⟨_, _, _, rfl, fun _ => ⟨htrue, hfits⟩, (hl.trans hled).free, ?_, hnew, ?_, hfits, rfl⟩
        · exact hh.realloc (by omega) (by omega)
        · show newLen.toNat ≤ newSize buf.block.size newLen.toNat
          omega
  · have hgrow' : ¬buf.block.size < newLen.toNat := hs ▸ fun h => hgrow (UInt64.lt_iff_toNat_lt.2 h)
    rw [if_neg hgrow]
    exact Or.inr ⟨_, _, _, rfl, fun h => absurd h hgrow', hl, hh, hs, Nat.le_of_not_lt hgrow', hm, (if_neg hgrow').symm⟩

/-- A call appends its piece to what was collected, or gets no memory and drops it. Either way it stays inside of the block. -/
theorem curlWrite_cases (h : Collected mem₀ mem d body) (env : CurlWriteEnv) (chunk : CurlChunk) :
    (∃ mem' d', curlWrite env chunk mem d = some (mem', d', chunk.realSize) ∧ d'.err = d.err ∧
      env.Suffices d.size (body.length + chunk.ptr.length + 1) ∧
      d'.size = some (newSize (d.size.getD 4096) (body.length + chunk.ptr.length + 1)) ∧
      Collected mem₀ mem' d' (body ++ chunk.ptr)) ∨
    ∃ mem' d', curlWrite env chunk mem d = some (mem', d', 0) ∧ d'.err = -ENOMEM ∧ d'.data = none ∧ d'.len = d.len ∧
      ¬env.Suffices d.size (body.length + chunk.ptr.length + 1) ∧ Ledger mem₀ mem' [] ∧
      ∀ buf, d.data = some buf → mem' = mem.free (some buf.addr) := by
  have hbody : body.length < 2 ^ 62 := h.length_lt
  have hchunk : chunk.ptr.length < 2 ^ 62 := chunk.length_lt
  have hreal : chunk.realSize.toNat = chunk.ptr.length := chunk.length_ptr.symm
  have hlen : (d.len + chunk.realSize).toNat = body.length + chunk.ptr.length := by
    rw [UInt64.toNat_add, h.len, hreal]
    omega
  have hnewLen : (d.len + chunk.realSize + 1).toNat = body.length + chunk.ptr.length + 1 := by
    rw [UInt64.toNat_add, hlen, show (1 : UInt64).toNat = 1 from rfl]
    omega
  unfold curlWrite
  obtain ⟨hd, hfalse, hfirst⟩ | ⟨mem₁, buf, allocated, hfirst, hmalloc, hl, hroom, hsize, hsame⟩ := firstBlock_cases h env.malloc
  · -- no block, and none can be made
    have hl := h.ledger
    rw [TgapiCurlData.addr, hd] at hl
    rw [hfirst]
    refine Or.inr ⟨mem, { d with allocated := 4096, err := -ENOMEM }, rfl, rfl, hd, rfl, fun hs => ?_, hl, fun buf hbuf => ?_⟩
    · have := hs.1 (by rw [TgapiCurlData.size, hd]; rfl)
      rw [hfalse] at this
      nomatch this
    · rw [hd] at hbuf
      nomatch hbuf
  · rw [hfirst]
    obtain ⟨hsmall, hfalse, hgrow⟩ | ⟨mem₂, buf₂, allocated₂, hgrow, hrealloc, hl₂, hh, hs₂, hfits, hlt, hsize₂⟩ :=
      growBlock_cases hl hroom (d.len + chunk.realSize + 1) env.realloc (by omega) (by omega)
    · -- the block cannot grow, and is freed
      simp only [hgrow]
      refine Or.inr ⟨_, _, rfl, rfl, rfl, rfl, fun hs => ?_, hl.free, fun buf' hbuf' => ?_⟩
      · rw [hnewLen, hsize] at hsmall hfalse
        exact hfalse (hs.2 hsmall)
      · obtain ⟨rfl, rfl⟩ := hsame buf' hbuf'
        rfl
    · simp only [hgrow]
      rw [hnewLen] at hfits hsize₂ hrealloc
      rw [hsize] at hsize₂ hrealloc
      have hroom₂ : (body.length + chunk.ptr.length) * 1 ≤ buf₂.block.size := by omega
      obtain ⟨block, hcopy⟩ := Block.exists_copy hroom₂
      have hbsize := Block.copy_size hcopy
      have hinside : block.Inside 1 (body ++ chunk.ptr).length := by
        rw [Block.Inside, hbsize, List.length_append]
        omega
      obtain ⟨block', hstore⟩ := Block.exists_store hinside 0
      have hbody := hh.copy hcopy
      have hnul := hbody.store hstore
      have hsize' := (Block.store_eq_some hstore).2.1.trans hbsize
      rw [List.length_append] at hstore
      rw [h.len, hlen, hcopy]
      simp only [hstore]
      refine Or.inl ⟨_, _, rfl, rfl, ⟨fun hn => hmalloc ?_, hrealloc⟩, ?_, ?_⟩
      · exact Option.map_eq_none_iff.1 hn
      · show some block'.size = _
        rw [hsize', hsize₂]
      · refine ⟨hl₂, ?_, nofun, ?_, ?_⟩
        · rw [List.length_append]
          exact hlen
        · rintro _ ⟨⟩
          refine ⟨hnul.of_append, hs₂.trans hsize'.symm, ?_, lt_of_eq_of_lt hsize' hlt⟩
          show (body ++ chunk.ptr).length + 1 ≤ block'.size
          rw [hsize', List.length_append]
          exact hfits
        · rintro _ ⟨⟩
          exact hnul

/-! ## The calls of a response -/

/-- The calls on one `struct curl_data`, with what they return, up to the first that gets no memory. -/
def curlWrites : List (CurlWriteEnv × CurlChunk) → Mem → TgapiCurlData → Option (Mem × TgapiCurlData × List UInt64)
  | [], mem, d => some (mem, d, [])
  | (env, chunk) :: calls, mem, d =>
    match tgapiCurlWrite env chunk mem (some d) with
    | some (mem, some d, ret) =>
      if d.err ≠ 0 then some (mem, d, [ret]) else (curlWrites calls mem d).map fun r => (r.1, r.2.1, ret :: r.2.2)
    | _ => none

/-- The bytes of the pieces, one after the other. -/
def bodyOf (calls : List (CurlWriteEnv × CurlChunk)) : List UInt8 := calls.flatMap fun call => call.2.ptr

/-- What the calls return that get their memory. -/
def sizesOf (calls : List (CurlWriteEnv × CurlChunk)) : List UInt64 := calls.map fun call => call.2.realSize

/-- The buffer holds the body and then a NUL, its block is as large as `allocated` says, and is the only one that is not freed. -/
structure HoldsBody (mem₀ mem : Mem) (d : TgapiCurlData) (body : List UInt8) (buf : CurlBuffer) : Prop where
  data : d.data = some buf
  len : d.len.toNat = body.length
  holds : buf.block.Holds (body ++ [0])
  room : body.length + 1 ≤ d.allocated.toNat
  size : d.allocated.toNat = buf.block.size
  ledger : Ledger mem₀ mem [buf.addr]

/-- One of the calls gets no memory: it returns 0 and leaves no buffer, the one that there was is freed, and every block is freed once. -/
inductive Dropped (mem₀ mem : Mem) (d : TgapiCurlData) (calls : List (CurlWriteEnv × CurlChunk)) (mem' : Mem) (d' : TgapiCurlData)
    (rets : List UInt64) : Prop where
  | mk (before : List (CurlWriteEnv × CurlChunk)) (env : CurlWriteEnv) (chunk : CurlChunk) (after : List (CurlWriteEnv × CurlChunk))
      (mem₁ : Mem) (d₁ : TgapiCurlData) (split : calls = before ++ (env, chunk) :: after)
      (made : curlWrites before mem d = some (mem₁, d₁, sizesOf before)) (madeErr : d₁.err = 0)
      (refused : env.Refuses d₁.size (d₁.len.toNat + chunk.ptr.length + 1)) (err : d'.err = -ENOMEM)
      (rets_eq : rets = sizesOf before ++ [0]) (data : d'.data = none)
      (freed : ∀ buf, d₁.data = some buf → mem' = mem₁.free (some buf.addr)) (ledger : Ledger mem₀ mem' [])

theorem Collected.holdsBody (h : Collected mem₀ mem d body) {buf : CurlBuffer} (hd : d.data = some buf) :
    HoldsBody mem₀ mem d body buf := by
  obtain ⟨hl, hlen, -, hroom, hholds⟩ := h
  rw [TgapiCurlData.addr, hd] at hl
  exact ⟨hd, hlen, hholds buf hd, (hroom buf hd).size ▸ (hroom buf hd).room, (hroom buf hd).size, hl⟩

theorem curlWrites_cons {env : CurlWriteEnv} {chunk : CurlChunk} {ret : UInt64} (hw : curlWrite env chunk mem d = some (mem', d', ret))
    (herr : d'.err = 0) (calls : List (CurlWriteEnv × CurlChunk)) :
    curlWrites ((env, chunk) :: calls) mem d = (curlWrites calls mem' d').map fun r => (r.1, r.2.1, ret :: r.2.2) := by
  rw [curlWrites, tgapiCurlWrite, hw]
  exact if_neg (not_not.2 herr)

/-- The calls go on from what was collected before: all of them get their memory, or one of them drops the buffer. -/
theorem curlWrites_cases (h : Collected mem₀ mem d body) (herr : d.err = 0) (calls : List (CurlWriteEnv × CurlChunk))
    (hlt : body.length + (bodyOf calls).length < 2 ^ 60) :
    ∃ mem' d' rets, curlWrites calls mem d = some (mem', d', rets) ∧
      (d'.err = 0 ∧ rets = sizesOf calls ∧ Collected mem₀ mem' d' (body ++ bodyOf calls) ∧ (calls ≠ [] → d'.data ≠ none) ∨
        Dropped mem₀ mem d calls mem' d' rets) := by
  induction calls generalizing mem d body with
  | nil => exact ⟨mem, d, [], rfl, Or.inl ⟨herr, rfl, by rwa [bodyOf, List.flatMap_nil, List.append_nil], fun hn => absurd rfl hn⟩⟩
  | cons call calls ih =>
    obtain ⟨env, chunk⟩ := call
    have hbody : bodyOf ((env, chunk) :: calls) = chunk.ptr ++ bodyOf calls := List.flatMap_cons
    rw [hbody, List.length_append] at hlt
    obtain ⟨mem₁, d₁, hw, herr₁, -, hsize, hcol⟩ | ⟨mem₁, d₁, hw, herr₁, hd₁, -, href, hl, hfreed⟩ := curlWrite_cases h env chunk
    · rw [herr] at herr₁
      have hcons := curlWrites_cons hw herr₁
      have hd₁ : d₁.data ≠ none := fun hn => by
        rw [TgapiCurlData.size, hn] at hsize
        nomatch hsize
      obtain ⟨mem', d', rets, heq, hcase⟩ := ih hcol herr₁ (by rw [List.length_append]; omega)
      refine ⟨mem', d', chunk.realSize :: rets, by rw [hcons, heq]; rfl, ?_⟩
      rcases hcase with ⟨herr', hrets, hcol', hne⟩ |
        ⟨before, env', chunk', after, mem₂, d₂, hsplit, hmade, herr₂, href, herr', hrets, hd', hfreed, hl⟩
      · refine Or.inl ⟨herr', by rw [hrets]; rfl, by rwa [hbody, ← List.append_assoc], fun _ => ?_⟩
        by_cases hnil : calls = []
        · rw [hnil, curlWrites] at heq
          cases heq
          exact hd₁
        · exact hne hnil
      · refine Or.inr ⟨(env, chunk) :: before, env', chunk', after, mem₂, d₂, ?_, ?_, herr₂, href, herr', ?_, hd', hfreed, hl⟩
        · rw [hsplit]
          rfl
        · rw [hcons, hmade]
          rfl
        · rw [hrets]
          rfl
    · have hne : d₁.err ≠ 0 := by
        rw [herr₁]
        decide
      have href := CurlWriteEnv.Refuses.of_not_suffices href (by omega)
      rw [← h.len] at href
      refine ⟨mem₁, d₁, [0], ?_, Or.inr ⟨[], env, chunk, calls, mem, d, rfl, rfl, herr, href, herr₁, rfl, hd₁, hfreed, hl⟩⟩
      rw [curlWrites, tgapiCurlWrite, hw]
      exact if_pos hne

/-- The calls of `tgapi_curl_write` on a `struct curl_data` that is all zero store inside of the block. While they get their memory, each
returns the size of its piece, and the buffer holds the pieces one after the other; the first that gets none returns 0 and drops the
buffer. -/
theorem response_body (calls : List (CurlWriteEnv × CurlChunk)) (mem : Mem) (hlt : (bodyOf calls).length < 2 ^ 60) :
    ∃ mem' d rets, curlWrites calls mem .zero = some (mem', d, rets) ∧
      (d.err = 0 ∧ rets = sizesOf calls ∧ (calls ≠ [] → ∃ buf, HoldsBody mem mem' d (bodyOf calls) buf) ∨
        Dropped mem mem .zero calls mem' d rets) := by
  obtain ⟨mem', d, rets, heq, ⟨herr, hrets, hcol, hne⟩ | hdrop⟩ :=
    curlWrites_cases (Collected.zero mem) rfl calls (by rw [List.length_nil]; omega)
  · refine ⟨mem', d, rets, heq, Or.inl ⟨herr, hrets, fun hn => ?_⟩⟩
    obtain ⟨buf, hd⟩ := Option.ne_none_iff_exists'.1 (hne hn)
    exact ⟨buf, hcol.holdsBody hd⟩
  · exact ⟨mem', d, rets, heq, Or.inr hdrop⟩

/-- A piece of one byte. -/
def firstByte : CurlChunk := ⟨[123], 1, 1, rfl, by decide⟩

/-- A body of three bytes in two pieces. -/
def twoPieces : List (CurlWriteEnv × CurlChunk) :=
  [(⟨true, true⟩, firstByte), (⟨true, false⟩, ⟨[125, 10], 1, 2, rfl, by decide⟩)]

theorem response_body_twoPieces : ∃ mem' d rets, curlWrites twoPieces Mem.empty .zero = some (mem', d, rets) ∧
    (d.err = 0 ∧ rets = [1, 2] ∧ (∃ buf, HoldsBody Mem.empty mem' d [123, 125, 10] buf) ∨
      Dropped Mem.empty Mem.empty .zero twoPieces mem' d rets) := by
  obtain ⟨mem', d, rets, heq, ⟨herr, hrets, hbody⟩ | hdrop⟩ := response_body twoPieces Mem.empty (by decide)
  · exact ⟨mem', d, rets, heq, Or.inl ⟨herr, hrets, hbody (List.cons_ne_nil _ _)⟩⟩
  · exact ⟨mem', d, rets, heq, Or.inr hdrop⟩

end GwBot
