/-
The scripts a signer makes.

A consistent key store has a signature for every key that it says to have.  For a script of which it
has the owner's keys the signer makes a script of pushes (`Solution`), with which the script runs to
the end under the standard flags if it pushes its keys and hashes directly.
-/
import Divi.Proofs.SolvedScripts
import Divi.Script.Sign

namespace Divi

open CPubKey List Option Results Instruction

variable {vch key sig : valtype} {script : CScript} {owner mgr : Instruction}
  {params : SigningParams} {keystore : CKeyStore} {hash : uint256} {keys : List Instruction}

/-! ### Public keys -/

section

variable (h : isCompressedOrUncompressedPubKey vch = true)

include h

/-- A key with the prefix and the length of a compressed or an uncompressed one. -/
theorem pubKey_cases : ∃ chHeader rest, vch = chHeader :: rest ∧
      ((chHeader = 4 ∧ vch.length = 65) ∨ ((chHeader = 2 ∨ chHeader = 3) ∧ vch.length = 33)) := by
  cases vch with
  | nil => cases h
  | cons chHeader rest =>
    refine ⟨chHeader, rest, rfl, ?_⟩
    revert h
    fun_cases isCompressedOrUncompressedPubKey (chHeader :: rest) with
    | case1 | case4 => nofun
    | case2 _ hfour => exact fun h => .inl ⟨hfour, eq_of_beq h⟩
    | case3 _ _ hcomp => exact fun h => .inr ⟨hcomp, eq_of_beq h⟩

theorem ofBytes_of_encoding : ofBytes vch = vch := by
  obtain ⟨chHeader, rest, rfl, hc⟩ := pubKey_cases h
  rw [ofBytes, if_pos]
  obtain ⟨rfl, hlen⟩ | ⟨rfl | rfl, hlen⟩ := hc
  · rw [hlen]
    rfl
  · rw [hlen]
    rfl
  · rw [hlen]
    rfl

theorem isValid_of_encoding : isValid vch = true := by
  rw [isValid, ofBytes_of_encoding h]
  obtain ⟨chHeader, rest, rfl, -⟩ := pubKey_cases h
  rfl

theorem head?_of_encoding : vch.head? ≠ some 0x30 := by
  obtain ⟨chHeader, rest, rfl, hc⟩ := pubKey_cases h
  rw [List.head?_cons, ne_eq, Option.some.injEq]
  rintro rfl
  obtain ⟨hfour, -⟩ | ⟨htwo | ht, -⟩ := hc
  · exact absurd hfour (by decide)
  · exact absurd htwo (by decide)
  · exact absurd ht (by decide)

end

/-! ### Signatures -/

/-- The scripts of the inputs are not signed. -/
theorem CTransactionSignatureSerializer.serialize_setScriptSig (tx : CMutableTransaction)
    (scriptCode : CScript) (nIn : Nat) (scriptSig : CScript) (nHashType : BitVec 32) :
    (mk (tx.setScriptSig nIn scriptSig) scriptCode nIn nHashType).serialize =
      (mk tx scriptCode nIn nHashType).serialize := by
  have hone : (tx.setScriptSig nIn scriptSig).vin[nIn]? =
      tx.vin[nIn]?.map fun txin => { txin with scriptSig := scriptSig } := by
    rw [CMutableTransaction.setScriptSig, List.getElem?_modify]
    simp
  have hall : (tx.setScriptSig nIn scriptSig).vin.mapIdx
      (mk (tx.setScriptSig nIn scriptSig) scriptCode nIn nHashType).serializeInput =
      tx.vin.mapIdx (mk tx scriptCode nIn nHashType).serializeInput := by
    refine ext_getElem? fun i => ?_
    rw [List.getElem?_mapIdx, List.getElem?_mapIdx, CMutableTransaction.setScriptSig,
      List.getElem?_modify]
    cases tx.vin[i]? with
    | none => simp
    | some input => by_cases hi : nIn = i <;> simp [hi] <;> rfl
  unfold serialize
  rw [hone, hall, Option.map_map]
  rfl

theorem SigningParams.signatureHash_setScriptSig (params : SigningParams) (scriptCode : CScript)
    (tx : CMutableTransaction) (nIn : Nat) (scriptSig : CScript) (nHashType : BitVec 32) :
    params.signatureHash scriptCode (tx.setScriptSig nIn scriptSig) nIn nHashType =
      params.signatureHash scriptCode tx nIn nHashType := by
  unfold signatureHash
  rw [CTransactionSignatureSerializer.serialize_setScriptSig, CMutableTransaction.setScriptSig,
    length_modify]

/-- A key store that is unlocked, and whose keys, public keys and scripts belong together. -/
structure CKeyStore.Consistent (params : SigningParams) (keystore : CKeyStore) : Prop where
  getKey_of_haveKey : ∀ id, keystore.haveKey id = true → ∃ key, keystore.getKey id = some key
  getPubKey_of_getKey : ∀ id key, keystore.getKey id = some key →
    keystore.getPubKey id = some key.getPubKey ∧
      CPubKey.getID params.hashes key.getPubKey = id
  hash_of_getCScript : ∀ id script, keystore.getCScript id = some script →
    params.hashes.hash160 script = id
  /-- Signatures verify; they are DER-encoded, and longer than the hash of a key. -/
  sign_verifies : ∀ id key, keystore.getKey id = some key → ∀ hash, ∃ sig,
    key.sign hash = some sig ∧ params.verify key.getPubKey hash sig = true ∧
      isValidSignatureEncoding (sig ++ [1]) = true ∧ 20 ≤ sig.length

/-- A script context in which the signatures of a hash are accepted for a script. -/
structure AcceptsSignatures (params : SigningParams) (ctx : ScriptContext)
    (script : CScript) (hash : uint256) : Prop where
  flags : ctx.flags = STANDARD_SCRIPT_VERIFY_FLAGS
  hashes : ctx.hashes = params.hashes
  checkSig : ∀ sig key, isCompressedOrUncompressedPubKey key = true →
    params.verify key hash sig = true → ctx.checker.checkSig (sig ++ [1]) key script = true

/-- A signature of a hash for a public key, with its hash type. -/
structure IsSignature (params : SigningParams) (hash : uint256) (key sig : valtype) :
    Prop where
  encoding : isCompressedOrUncompressedPubKey key = true
  sig_encoding : checkSignatureEncoding sig STANDARD_SCRIPT_VERIFY_FLAGS = .ok ()
  bytes : SignatureBytes sig
  verifies : ∃ unmarked, sig = unmarked ++ [1] ∧ params.verify key hash unmarked = true

theorem IsSignature.signs (h : IsSignature params hash key sig) {ctx : ScriptContext}
    (hctx : AcceptsSignatures params ctx script hash) : Signs ctx script sig key := by
  obtain ⟨unmarked, rfl, hv⟩ := h.verifies
  refine ⟨?_, ?_, hctx.checkSig unmarked key h.encoding hv⟩
  · rw [hctx.flags]
    exact h.sig_encoding
  · rw [checkPubKeyEncoding, h.encoding, Bool.not_true, Bool.and_false, if_neg Bool.false_ne_true]

/-- `Sign1` with a key that the store has. -/
theorem sign1_of_haveKey (hs : keystore.Consistent params) {id : valtype}
    (h : keystore.haveKey id = true) (hash : uint256) :
    ∃ key sig, IsSignature params hash key sig ∧ keystore.getPubKey id = some key ∧
      params.hashes.hash160 key = id ∧
      ∀ script, sign1 keystore id hash SIGHASH_ALL script = some (script.pushData sig) := by
  obtain ⟨key, hkey⟩ := hs.getKey_of_haveKey id h
  obtain ⟨hpk, hid⟩ := hs.getPubKey_of_getKey id key hkey
  obtain ⟨sig, hsign, hv, henc, hlen⟩ := hs.sign_verifies id key hkey hash
  rw [getID, ofBytes_of_encoding key.getPubKey_encoding] at hid
  refine ⟨key.getPubKey, sig ++ [1], ⟨key.getPubKey_encoding, ?_, ?_, sig, rfl, hv⟩, hpk,
    hid, ?_⟩
  · have htype : isDefinedHashtypeSignature (sig ++ [1]) = true := by
      rw [isDefinedHashtypeSignature, List.getLast?_concat]
      decide
    refine checkSignatureEncoding_eq_ok.mpr (.inr ⟨fun _ => henc, ?_, fun _ => htype⟩)
    intro hf
    cases hf
  · unfold isValidSignatureEncoding at henc
    simp only [Bool.and_eq_true, decide_eq_true_eq, beq_iff_eq] at henc
    obtain ⟨⟨⟨⟨⟨⟨⟨-, hmax⟩, hfst⟩, -⟩, -⟩, -⟩, -⟩, -⟩ := henc
    refine ⟨?_, ?_, hmax⟩
    · cases sig with
      | nil => exact absurd hlen (by decide)
      | cons b sig => exact congrArg some hfst
    · rw [length_append, length_singleton]
      omega
  · intro script
    rw [sign1, hkey]
    show (key.sign hash).bind _ = _
    rw [hsign]
    rfl

/-! ### Solutions -/

/-- The public keys in a script. -/
def publicKeys (script : CScript) : List valtype :=
  match extractScriptPubKeyFormat script with
  | some (.TX_PUBKEY, solutions) => solutions
  | some (.TX_MULTISIG, solutions) => solutions.tail.dropLast
  | _ => []

/-- The store has the keys that a script of a type asks for: the key, the owner's, or all. -/
def CKeyStore.Owns (keystore : CKeyStore) (hashes : ScriptHashes) (type : txnouttype)
    (solutions : List valtype) : Prop :=
  match type with
  | .TX_PUBKEY => keystore.haveKey (CPubKey.getID hashes (solutions.headD [])) = true
  | .TX_PUBKEYHASH | .TX_VAULT => keystore.haveKey (solutions.headD []) = true
  | .TX_MULTISIG =>
    ∀ key ∈ solutions.tail.dropLast, keystore.haveKey (CPubKey.getID hashes key) = true
  | .TX_NONSTANDARD | .TX_SCRIPTHASH | .TX_NULL_DATA => False

/-- A script of pushes that is made for a script, and solves it if that pushes directly. -/
structure Solution (params : SigningParams) (keystore : CKeyStore) (script : CScript)
    (hash : uint256) (type : txnouttype) (pushes : List Instruction) : Prop where
  construct : constructScriptSigOrGetRedemptionScript params.hashes keystore script hash
    SIGHASH_ALL = (true, assemble pushes, type)
  minimal : ∀ i ∈ pushes, i.IsMinimalPush
  count : pushes.length ≤ 17
  size : ∀ i ∈ pushes, i.data.length ≤ 73
  eval : pushesDirectly script = true →
    ∀ ctx, AcceptsSignatures params ctx script hash →
      evalScript ctx (pushes.map Instruction.value).reverse script = .ok [vchTrue]

theorem IsSignature.size (h : IsSignature params hash key sig) :
    sig.length ≤ MAX_SCRIPT_ELEMENT_SIZE :=
  h.bytes.length_le.trans (by decide)

theorem IsSignature.isMinimalPush (h : IsSignature params hash key sig) :
    (ofData sig h.size).IsMinimalPush := by
  have hlen := h.bytes.length_gt
  exact isMinimalPush_ofData h.size (by omega)

section

variable (h : isCompressedOrUncompressedPubKey vch = true)

include h

theorem length_of_encoding : 2 ≤ vch.length ∧ vch.length ≤ 65 := by
  obtain ⟨_, _, -, hc⟩ := pubKey_cases h
  omega

theorem size_of_encoding : vch.length ≤ MAX_SCRIPT_ELEMENT_SIZE :=
  (length_of_encoding h).2.trans (by decide)

theorem isMinimalPush_of_encoding : (ofData vch (size_of_encoding h)).IsMinimalPush := by
  have hlen := (length_of_encoding h).1
  exact isMinimalPush_ofData _ (by omega)

end

theorem solution_pubkey {key : Instruction} (hst : keystore.Consistent params)
    (hkey : key.IsKeyPush) (hscr : script = assemble [key, .op OP_CHECKSIG (by decide)])
    (hext : extractScriptPubKeyFormat script = some (.TX_PUBKEY, [key.data]))
    (howns : keystore.haveKey (getID params.hashes key.data) = true)
    (huniq : ∀ stored, keystore.getPubKey (getID params.hashes key.data) =
      some stored → stored = key.data) (hash : uint256) :
    ∃ pushes, Solution params keystore script hash .TX_PUBKEY pushes := by
  obtain ⟨pubKey, sig, hsig, hpk, -, hsign⟩ := sign1_of_haveKey hst howns hash
  obtain rfl := huniq pubKey hpk
  refine ⟨[.ofData sig hsig.size], ?_, ?_, ?_, ?_, ?_⟩
  · have hpush := pushData_eq_append_encode [] hsig.size
    simp [constructScriptSigOrGetRedemptionScript, scriptPubKeyFormatRet, hext, hsign, hpush]
  · simpa using hsig.isMinimalPush
  · simp
  · simpa using hsig.bytes.length_le
  · intro hdir ctx hctx
    have hsi := hsig.signs hctx
    rw [hscr] at hdir hsi ⊢
    have hs := HasShape.pubkey key hkey
    have hfst := head?_of_encoding hsig.encoding
    have hdrop := hs.dropSignature (by simp [hfst, op]) hsig.bytes
    have hrun := runOps_pubkey hkey (hs.pushesDirectly_iff.mp hdir _ (by simp)) hdrop hsi
    rw [map_singleton, reverse_singleton, value_ofData]
    exact evalScript_assemble hs.length_assemble_le hrun rfl

theorem solution_pubkeyhash {keyHash : Instruction} (hst : keystore.Consistent params)
    (hlen : keyHash.data.length = 20)
    (hscr : script = assemble [.op OP_DUP (by decide), .op OP_HASH160 (by decide), keyHash,
      .op OP_EQUALVERIFY (by decide), .op OP_CHECKSIG (by decide)])
    (hext : extractScriptPubKeyFormat script = some (.TX_PUBKEYHASH, [keyHash.data]))
    (howns : keystore.haveKey keyHash.data = true) (hash : uint256) :
    ∃ pushes, Solution params keystore script hash .TX_PUBKEYHASH pushes := by
  obtain ⟨pubKey, sig, hsig, hpk, hid, hsign⟩ := sign1_of_haveKey hst howns hash
  refine ⟨[.ofData sig hsig.size, .ofData pubKey (size_of_encoding hsig.encoding)], ?_, ?_, ?_, ?_,
    ?_⟩
  · have hpush := pushData_eq_append_encode [] hsig.size
    simp [constructScriptSigOrGetRedemptionScript, scriptPubKeyFormatRet, hext, hsign, hpk,
      hpush, pushData_eq_append_encode _ (size_of_encoding hsig.encoding)]
  · simpa using ⟨hsig.isMinimalPush, isMinimalPush_of_encoding hsig.encoding⟩
  · simp
  · have hle := (length_of_encoding hsig.encoding).2
    simp only [forall_mem_cons, not_mem_nil, false_imp_iff, implies_true, and_true]
    exact ⟨hsig.bytes.length_le, hle.trans (by decide)⟩
  · intro hdir ctx hctx
    have hsi := hsig.signs hctx
    rw [hscr] at hdir hsi ⊢
    have hs := HasShape.pubkeyhash keyHash hlen
    have hdrop := hs.dropSignature (by simp [op, Instruction.IsKeyPush, hlen]) hsig.bytes
    have hrun := runOps_pubkeyhash hlen (hs.pushesDirectly_iff.mp hdir _ (by simp))
      (hctx.hashes ▸ hid) hdrop hsi
    rw [map_cons, map_singleton, value_ofData, value_ofData]
    exact evalScript_assemble hs.length_assemble_le hrun rfl

theorem encode_of_direct {i : Instruction} (hlen : i.data.length = 20)
    (hdir : opcodeIsPushData i.opcode = false) : i.encode = CScript.pushWith 0x14 i.data := by
  obtain ⟨hle, hcan⟩ := canPush_of_data (i := i) (by omega)
  have hlt : i.opcode < OP_PUSHDATA1 := by
    rw [← Bool.not_eq_true, opcodeIsPushData_iff hle, not_not] at hdir
    exact hdir
  rw [if_pos hlt, hlen] at hcan
  have hop : i.opcode = 0x14 := UInt8.toNat_inj.mp hcan.symm
  rw [encode, if_neg (UInt8.not_lt.mpr hle), hop]

/-- A vault that pushes its key hashes directly is the script of `CreateStakingVaultScript`. -/
theorem assemble_vaultOps (ho : owner.data.length = 20) (hmgr : mgr.data.length = 20)
    (hdir : pushesDirectly (assemble (vaultOps owner mgr)) = true) :
    assemble (vaultOps owner mgr) = createStakingVaultScript owner.data mgr.data := by
  have hall := (HasShape.vault owner mgr ho hmgr).pushesDirectly_iff.mp hdir
  have hownerDirect := hall owner (by simp)
  have hmanagerDirect := hall mgr (by simp)
  rw [← vaultWith_direct ho hmgr]
  simp [vaultOps, vaultWith, vaultTail, encode_of_direct ho hownerDirect,
    encode_of_direct hmgr hmanagerDirect]

theorem pushesDirectly_createStakingVaultScript {o v : valtype} (ho : o.length = 20)
    (hv : v.length = 20) : pushesDirectly (createStakingVaultScript o v) = true := by
  have hcan : ∀ data : valtype, data.length = 20 → CScript.CanPush 0x14 data.length := by
    intro data hdata
    rw [hdata]
    decide
  have hops : createStakingVaultScript o v =
      assemble (vaultOps (.push 0x14 o (hcan o ho)) (.push 0x14 v (hcan v hv))) := by
    rw [← vaultWith_direct ho hv]
    simp [vaultOps, vaultWith, vaultTail]
  rw [hops]
  refine (HasShape.vault _ _ ho hv).pushesDirectly_iff.mpr ?_
  simp only [forall_mem_cons, not_mem_nil, false_imp_iff, implies_true, and_true]
  exact ⟨rfl, rfl, rfl, rfl, rfl, rfl, rfl, rfl, rfl, rfl⟩

/-- The signer reads the hashes of a vault at fixed places, and only if it pushes them directly. -/
theorem construct_vault_of_not_direct
    (hext : extractScriptPubKeyFormat script = some (.TX_VAULT, [owner.data, mgr.data]))
    (hdir : pushesDirectly script = false) (hash : uint256) :
    constructScriptSigOrGetRedemptionScript params.hashes keystore script hash SIGHASH_ALL =
      (false, [], .TX_VAULT) := by
  have hn : getStakingVaultPubkeyHashes script = none := by
    rw [getStakingVaultPubkeyHashes, if_neg]
    intro hva
    obtain ⟨o, v, ho, hv, rfl⟩ := eq_createStakingVaultScript hva
    rw [pushesDirectly_createStakingVaultScript ho hv] at hdir
    cases hdir
  simp [constructScriptSigOrGetRedemptionScript, scriptPubKeyFormatRet, hext, signVaultSpend, hn]

theorem solution_vault (hst : keystore.Consistent params) (ho : owner.data.length = 20)
    (hmgr : mgr.data.length = 20) (hscr : script = assemble (vaultOps owner mgr))
    (hext : extractScriptPubKeyFormat script = some (.TX_VAULT, [owner.data, mgr.data]))
    (hdir : pushesDirectly script = true) (howns : keystore.haveKey owner.data = true)
    (hash : uint256) : ∃ pushes, Solution params keystore script hash .TX_VAULT pushes := by
  obtain ⟨pubKey, sig, hsig, hpk, hid, hsign⟩ := sign1_of_haveKey hst howns hash
  have henc := hsig.encoding
  refine ⟨[.ofData sig hsig.size, .ofData pubKey (size_of_encoding henc),
    .op OP_1 (by decide)], ?_, ?_, ?_, ?_, ?_⟩
  · have hhs : getStakingVaultPubkeyHashes script = some (owner.data, mgr.data) := by
      rw [hscr, assemble_vaultOps ho hmgr (hscr ▸ hdir)]
      exact getStakingVaultPubkeyHashes_createStakingVaultScript ho hmgr
    have hpush := pushData_eq_append_encode [] hsig.size
    simp [constructScriptSigOrGetRedemptionScript, scriptPubKeyFormatRet, hext, signVaultSpend, hhs,
      howns, hsign, hpk, hpush, pushData_eq_append_encode _ (size_of_encoding henc), CScript.pushOp]
  · have hone : (op OP_1 (by decide)).IsMinimalPush := .inr (by decide)
    simpa using ⟨hsig.isMinimalPush, isMinimalPush_of_encoding henc, hone⟩
  · simp
  · have hle := (length_of_encoding henc).2
    simp only [forall_mem_cons, not_mem_nil, false_imp_iff, implies_true, and_true]
    exact ⟨hsig.bytes.length_le, hle.trans (by decide), Nat.zero_le _⟩
  · intro _ ctx hctx
    have hsi := hsig.signs hctx
    rw [hscr] at hdir hsi ⊢
    have hs := HasShape.vault owner mgr ho hmgr
    have hdrop := hs.dropSignature
      (by simp [op, Instruction.IsKeyPush, ho, hmgr]) hsig.bytes
    have hrun := runOps_vault ho hmgr
      (hs.pushesDirectly_iff.mp hdir _ (by simp)) (hctx.hashes ▸ hid) hdrop hsi
    have hone : (op OP_1 (by decide)).value = vchTrue := by decide
    rw [map_cons, map_cons, map_singleton, value_ofData, value_ofData, hone]
    exact evalScript_assemble hs.length_assemble_le hrun rfl

/-- `SignN` signs with the first keys, as many as are required. -/
theorem signKeys_of_owned (hs : keystore.Consistent params) (hash : uint256) {keys : List valtype}
    (howns : ∀ key ∈ keys, keystore.haveKey (getID params.hashes key) = true)
    (huniq : ∀ key ∈ keys, ∀ stored,
      keystore.getPubKey (getID params.hashes key) = some stored → stored = key) {m : Nat}
    (hm : m ≤ keys.length) (script : CScript) :
    ∃ pushes : List Instruction,
      (∀ i ∈ pushes, i.IsMinimalPush ∧ i.data.length ≤ 73 ∧ SignatureBytes i.value) ∧
      List.Forall₂ (fun sig key => IsSignature params hash key sig)
        (pushes.map value) (keys.take m) ∧
      signKeys params.hashes keystore hash SIGHASH_ALL keys m script =
        (0, script ++ assemble pushes) := by
  induction keys generalizing m script with
  | nil =>
    obtain rfl := Nat.le_zero.mp hm
    exact ⟨[], by simp, .nil, by rw [signKeys, assemble_nil, append_nil]⟩
  | cons key keys ih =>
    cases m with
    | zero => exact ⟨[], by simp, .nil, by rw [signKeys, assemble_nil, append_nil]⟩
    | succ m =>
      obtain ⟨pubKey, sig, hsig, hpk, -, hsign⟩ :=
        sign1_of_haveKey hs (howns key mem_cons_self) hash
      obtain rfl := huniq key mem_cons_self pubKey hpk
      obtain ⟨pushes, hp, hsigs, hkeys⟩ := ih
        (fun k hk => howns k (mem_cons_of_mem pubKey hk))
        (fun k hk => huniq k (mem_cons_of_mem pubKey hk)) (Nat.le_of_succ_le_succ hm)
        (script.pushData sig)
      refine ⟨.ofData sig hsig.size :: pushes, ?_, ?_, ?_⟩
      · intro i hi
        obtain rfl | hi := mem_cons.mp hi
        · refine ⟨hsig.isMinimalPush, hsig.bytes.length_le, ?_⟩
          rw [value_ofData]
          exact hsig.bytes
        · exact hp i hi
      · rw [map_cons, value_ofData]
        exact .cons hsig hsigs
      · rw [signKeys, hsign]
        dsimp only
        rw [hkeys, pushData_eq_append_encode script hsig.size, assemble_cons, append_assoc]

theorem mem_multisigOps {m : Nat} {hm : 1 ≤ m ∧ m ≤ keys.length}
    {hn : 1 ≤ keys.length ∧ keys.length ≤ 16} {i : Instruction} (h : i ∈ multisigOps m keys hm hn) :
    i.data = [] ∨ i ∈ keys := by
  simp only [multisigOps, mem_cons, mem_append, not_mem_nil, or_false] at h
  obtain rfl | hkey | rfl | rfl := h
  · exact .inl rfl
  · exact .inr hkey
  · exact .inl rfl
  · exact .inl rfl

theorem solution_multisig {m : Nat} (hst : keystore.Consistent params)
    (hm : 1 ≤ m ∧ m ≤ keys.length) (hn : 1 ≤ keys.length ∧ keys.length ≤ 16)
    (hkeys : ∀ key ∈ keys, key.IsKeyPush) (hscr : script = assemble (multisigOps m keys hm hn))
    (hext : extractScriptPubKeyFormat script = some (.TX_MULTISIG,
      [UInt8.ofNat m] :: (keys.map data ++ [[UInt8.ofNat keys.length]])))
    (howns : ∀ key ∈ keys.map data, keystore.haveKey (getID params.hashes key) = true)
    (huniq : ∀ key ∈ keys.map data, ∀ stored,
      keystore.getPubKey (getID params.hashes key) = some stored → stored = key)
    (hash : uint256) : ∃ pushes, Solution params keystore script hash .TX_MULTISIG pushes := by
  obtain ⟨pushes, hp, hsigs, hsign⟩ := signKeys_of_owned hst hash howns huniq
    (m := m) (by rw [length_map]; exact hm.2) (CScript.pushOp [] OP_0)
  have hcnt : pushes.length = m := by
    have hlen := hsigs.length_eq
    rw [length_map, length_take, length_map] at hlen
    omega
  have he : ([] : valtype).length ≤ MAX_SCRIPT_ELEMENT_SIZE := Nat.zero_le _
  have henc : ∀ key ∈ keys, isCompressedOrUncompressedPubKey key.data = true := by
    intro key hkey
    have hmem := mem_map_of_mem (f := data) hkey
    obtain ⟨pubKey, _, hsig, hpk, -⟩ := sign1_of_haveKey hst (howns _ hmem) hash
    rw [← huniq _ hmem pubKey hpk]
    exact hsig.encoding
  refine ⟨.ofData [] he :: pushes, ?_, ?_, ?_, ?_, ?_⟩
  · have hreq : (UInt8.ofNat m).toNat = m := by
      rw [UInt8.toNat_ofNat']
      omega
    simp only [constructScriptSigOrGetRedemptionScript, scriptPubKeyFormatRet, hext, signN,
      List.head?_cons, bind_some, getD_some, hreq, tail_cons, dropLast_concat, hsign, assemble_cons]
    rfl
  · intro i hi
    obtain rfl | hi := mem_cons.mp hi
    · exact isMinimalPush_ofData he (by decide)
    · exact (hp i hi).1
  · rw [length_cons]
    omega
  · intro i hi
    obtain rfl | hi := mem_cons.mp hi
    · exact Nat.zero_le _
    · exact (hp i hi).2.1
  · intro hdir ctx hctx
    rw [hscr] at hdir hctx ⊢
    have hs := HasShape.multisig m keys hm hn hkeys
    have hfst : ∀ i ∈ multisigOps m keys hm hn, i.IsKeyPush → i.data.head? ≠ some 0x30 := by
      intro i hi _
      obtain hdata | hkey := mem_multisigOps hi
      · rw [hdata, List.head?_nil]
        exact some_ne_none _ ∘ Eq.symm
      · exact head?_of_encoding (henc i hkey)
    have hdrop : ∀ sig ∈ pushes.map value,
        dropSignature (assemble (multisigOps m keys hm hn)) sig =
          assemble (multisigOps m keys hm hn) := by
      intro sig hsig
      obtain ⟨i, hi, rfl⟩ := mem_map.mp hsig
      exact hs.dropSignature hfst (hp i hi).2.2
    have hsi := hsigs.imp fun _ _ h => h.signs hctx
    rw [← map_take] at hsi
    have hrun := runOps_multisig hm hn hkeys
      (fun key hkey => hs.pushesDirectly_iff.mp hdir key (by simp [hkey]))
      (fun key hkey => by
        rw [checkPubKeyEncoding, henc key hkey, Bool.not_true, Bool.and_false,
          if_neg Bool.false_ne_true]) hdrop hsi
    rw [map_cons, reverse_cons, value_ofData]
    exact evalScript_assemble hs.length_assemble_le hrun rfl

/-- Whatever type a script of the owner has, there is a solution, unless it is a vault that the
signer does not recognise. -/
theorem exists_solution (hs : keystore.Consistent params) {type : txnouttype}
    {solutions : List valtype} (hext : extractScriptPubKeyFormat script = some (type, solutions))
    (howns : keystore.Owns params.hashes type solutions)
    (huniq : ∀ key ∈ publicKeys script, ∀ stored,
      keystore.getPubKey (getID params.hashes key) = some stored → stored = key)
    (hv : type = .TX_VAULT → pushesDirectly script = true) (hash : uint256) :
    ∃ pushes, Solution params keystore script hash type pushes := by
  obtain ⟨ops, hsh, hscr⟩ := shape_of_extract hext (by rintro rfl; exact howns)
    (by rintro rfl; exact howns)
  rw [publicKeys, hext] at huniq
  cases hsh with
  | pubkey key hkey =>
    exact solution_pubkey hs hkey hscr hext howns (huniq _ mem_cons_self) hash
  | pubkeyhash keyHash hlen => exact solution_pubkeyhash hs hlen hscr hext howns hash
  | vault owner mgr ho hmgr =>
    exact solution_vault hs ho hmgr hscr hext (hv rfl) howns hash
  | multisig m keys hm hn hkeys =>
    have htail : ([UInt8.ofNat m] :: (keys.map data ++
        [[UInt8.ofNat keys.length]])).tail.dropLast = keys.map data := by
      rw [tail_cons, dropLast_concat]
    rw [CKeyStore.Owns, htail] at howns
    dsimp only at huniq
    rw [htail] at huniq
    exact solution_multisig hs hm hn hkeys hscr hext howns huniq hash

end Divi
