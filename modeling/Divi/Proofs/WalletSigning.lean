/-
What the wallet takes for spendable, and what it can sign.

`IsMine` and `SignSignature` look at a script in the same way, up to two differences.  `IsMine`
looks into the redemption script of a redemption script, and the signature is verified under the
standard flags at the end, which want keys and hashes pushed directly.  Everything else that
`IsMine` takes for spendable with the keys of the owner is signed.
-/
import Divi.Proofs.ScriptSolutions
import Divi.WalletIsMine

namespace Divi

open SigningParams List Option Results Instruction

variable {params : SigningParams} {keystore : CKeyStore} {script scriptSig outer : CScript}
  {hash : uint256} {solutions : List valtype} {tx : CMutableTransaction} {nIn : Nat}
  {ctx : ScriptContext}

/-! ### What is mine -/

/-- Spendable scripts have the keys of their owner in the store, or a redemption script that is
spendable. -/
theorem isMine_cases {hashes : ScriptHashes} {fuel : Nat} {vaultType : VaultType}
    (hm : vaultType ≠ .MANAGED_VAULT)
    (h : isMine hashes keystore fuel script = some (.ISMINE_SPENDABLE, vaultType)) :
    ∃ type solutions, extractScriptPubKeyFormat script = some (type, solutions) ∧
      (keystore.Owns hashes type solutions ∨
        type = .TX_SCRIPTHASH ∧ ∃ subscript fuel',
          keystore.getCScript (solutions.headD []) = some subscript ∧
            isMine hashes keystore fuel' subscript = some (.ISMINE_SPENDABLE, vaultType)) := by
  have ho : ∀ vault : VaultType, some (isMineWithoutKeys keystore script, vault) ≠
      some (.ISMINE_SPENDABLE, vaultType) := by
    intro vault heq
    have hsp := (Prod.mk.inj (Option.some.inj heq)).1
    unfold isMineWithoutKeys at hsp
    split at hsp
    · cases hsp
    · split at hsp <;> cases hsp
  revert h
  fun_cases isMine hashes keystore fuel script with
  | case7 _ _ _ _ _ _ hkey hext | case9 _ _ _ _ _ _ hkey hext
  | case15 _ _ _ _ _ _ hkey hext => exact fun _ => ⟨_, _, hext, .inl hkey⟩
  | case13 fuel _ _ _ _ _ subscript hs ret vault hret _ hext =>
    intro h
    rw [h] at hret
    exact ⟨_, _, hext, .inr ⟨rfl, subscript, fuel, hs, hret⟩⟩
  | case16 => exact fun h => absurd (Prod.mk.inj (Option.some.inj h)).2.symm hm
  | case19 _ _ _ _ _ _ hkeys hext =>
    exact fun _ => ⟨_, _, hext, .inl (countP_eq_length.mp hkeys)⟩
  | case1 | case2 | case3 | case12 | case17 => nofun
  | _ => exact fun h => absurd h (ho _)

/-! ### Pay-to-script-hash -/

theorem extract_of_isPayToScriptHash (h : script.isPayToScriptHash = true) :
    extractScriptPubKeyFormat script = some (.TX_SCRIPTHASH, [(script.drop 2).take 20]) := by
  rw [extractScriptPubKeyFormat, if_pos h]

theorem isPayToScriptHash_of_extract
    (h : extractScriptPubKeyFormat script = some (.TX_SCRIPTHASH, solutions)) :
    script.isPayToScriptHash = true := by
  unfold extractScriptPubKeyFormat at h
  split at h
  next hh => exact hh
  next =>
    split at h
    next => cases h
    next =>
      obtain ⟨template, htmpl, -⟩ := template_of_scanTemplates h
      simp [mTemplates] at htmpl

theorem shape_of_isPayToScriptHash (h : script.isPayToScriptHash = true) :
    ∃ hash : Instruction, hash.data = (script.drop 2).take 20 ∧ hash.data.length = 20 ∧
      opcodeIsPushData hash.opcode = false ∧
      script = assemble [.op OP_HASH160 (by decide), hash, .op OP_EQUAL (by decide)] := by
  simp only [CScript.isPayToScriptHash, Bool.and_eq_true, beq_iff_eq] at h
  obtain ⟨⟨⟨hlen, hfst⟩, hsnd⟩, hl⟩ := h
  obtain ⟨first, second, rest, rfl⟩ : ∃ first second rest, script = first :: second :: rest := by
    cases script with
    | nil => cases hfst
    | cons first rest =>
      cases rest with
      | nil => cases hsnd
      | cons second rest => exact ⟨first, second, rest, rfl⟩
  obtain rfl : first = OP_HASH160 := Option.some.inj hfst
  obtain rfl : second = 0x14 := Option.some.inj hsnd
  have hr : rest.length = 21 := by simpa using hlen
  have htake : (rest.take 20).length = 20 := by rw [length_take, hr]; rfl
  have hcan : CScript.CanPush 0x14 (rest.take 20).length := by rw [htake]; decide
  have hdrop : rest.drop 20 = [OP_EQUAL] := by
    obtain ⟨last, hsi⟩ := length_eq_one_iff.mp
      (show (rest.drop 20).length = 1 by rw [length_drop, hr])
    have hget : (rest.drop 20)[0]? = some OP_EQUAL := by
      rw [List.getElem?_drop]
      exact hl
    rw [hsi] at hget ⊢
    rw [Option.some.inj hget]
  refine ⟨.push 0x14 (rest.take 20) hcan, rfl, htake, rfl, ?_⟩
  have hs := take_append_drop 20 rest
  rw [hdrop] at hs
  conv_lhs => rw [← hs]
  rfl

/-- The script whose keys have to sign: a redemption script, or the script itself. -/
def CKeyStore.spendingScript (keystore : CKeyStore) (script : CScript) : CScript :=
  if script.isPayToScriptHash then (keystore.getCScript ((script.drop 2).take 20)).getD []
  else script

/-! ### Verification -/

namespace SigningParams

variable (params : SigningParams)

/-- The context of the final verification. -/
def context (tx : CMutableTransaction) (nIn : Nat) : ScriptContext where
  hashes := params.hashes
  flags := STANDARD_SCRIPT_VERIFY_FLAGS
  checker := params.signatureChecker tx nIn

theorem acceptsSignatures_context (tx : CMutableTransaction) (nIn : Nat) (script : CScript) :
    AcceptsSignatures params (params.context tx nIn) script
      (params.signatureHash script tx nIn SIGHASH_ALL) := by
  refine ⟨rfl, rfl, fun sig key hkey hv => ?_⟩
  show (if !CPubKey.isValid key then false else _) = true
  rw [isValid_of_encoding hkey, List.getLast?_concat, dropLast_concat, ofBytes_of_encoding hkey]
  exact hv

theorem testSolution_iff {fromPubKey : CScript} :
    params.testSolution tx nIn scriptSig fromPubKey = true ↔
      ∃ stackCopy stack, evalScript (params.context tx nIn) [] scriptSig = .ok stackCopy ∧
        evalScript (params.context tx nIn) stackCopy fromPubKey = .ok stack ∧
        checkTop stack = .ok () ∧
        (fromPubKey.isPayToScriptHash = true →
          verifyScriptHash (params.context tx nIn) scriptSig stackCopy = .ok ()) := by
  have hok : params.testSolution tx nIn scriptSig fromPubKey = true ↔
      verifyScript (params.context tx nIn) scriptSig fromPubKey = .ok () := by
    show (verifyScript (params.context tx nIn) scriptSig fromPubKey).isOk = true ↔ _
    cases verifyScript (params.context tx nIn) scriptSig fromPubKey with
    | error e => simp [Except.isOk, Except.toBool]
    | ok result => simp [Except.isOk, Except.toBool]
  have hpushOnly : (params.context tx nIn).flags.has SCRIPT_VERIFY_SIGPUSHONLY = false := by
    show STANDARD_SCRIPT_VERIFY_FLAGS.has SCRIPT_VERIFY_SIGPUSHONLY = false
    decide
  have hscriptHash : (params.context tx nIn).flags.has SCRIPT_VERIFY_P2SH = true := by
    show STANDARD_SCRIPT_VERIFY_FLAGS.has SCRIPT_VERIFY_P2SH = true
    decide
  rw [hok, verifyScript, hpushOnly, hscriptHash, Bool.false_and, Bool.true_and,
    if_neg Bool.false_ne_true, bind_eq_ok]
  constructor
  · rintro ⟨stackCopy, hsig, hr⟩
    obtain ⟨stack, hpk, hr⟩ := bind_eq_ok.mp hr
    obtain ⟨⟨⟩, htop, hr⟩ := bind_eq_ok.mp hr
    refine ⟨stackCopy, stack, hsig, hpk, htop, fun hh => ?_⟩
    rw [if_pos hh] at hr
    exact hr
  · rintro ⟨stackCopy, stack, hsig, hpk, htop, hh⟩
    refine ⟨stackCopy, hsig, bind_eq_ok.mpr ⟨stack, hpk, bind_eq_ok.mpr ⟨(), htop, ?_⟩⟩⟩
    split
    next hscr => exact hh hscr
    next => rfl

end SigningParams

section

variable {type : txnouttype} {pushes : List Instruction}

/-- With its solution a script runs to the end exactly if it pushes directly. -/
theorem Solution.evalScript_iff (h : Solution params keystore script hash type pushes)
    (hctx : AcceptsSignatures params ctx script hash)
    (hs : ∃ ops, HasShape type solutions ops ∧ script = assemble ops)
    (hv : type = .TX_VAULT → pushesDirectly script = true) :
    (∃ stack, evalScript ctx (pushes.map value).reverse script = .ok stack ∧
      checkTop stack = .ok ()) ↔ pushesDirectly script = true := by
  constructor
  · rintro ⟨stack, heval, -⟩
    by_cases htype : type = .TX_VAULT
    · exact hv htype
    · obtain ⟨ops, hops, rfl⟩ := hs
      have hmin : ctx.fRequireMinimal = true := by
        rw [ScriptContext.fRequireMinimal, hctx.flags]
        decide
      exact hops.pushesDirectly_of_evalScript htype hmin heval
  · intro hdir
    exact ⟨[vchTrue], h.eval hdir ctx hctx, rfl⟩

theorem Solution.evalScript_pushes (h : Solution params keystore script hash type pushes)
    (ctx : ScriptContext) :
    evalScript ctx [] (assemble pushes) = .ok (pushes.map value).reverse := by
  have hlen := length_assemble_le h.size
  have hcnt := h.count
  exact Divi.evalScript_pushes h.minimal (by omega) (by omega)

theorem Solution.testSolution_iff (h : Solution params keystore script
      (params.signatureHash script tx nIn SIGHASH_ALL) type pushes)
    (hs : ∃ ops, HasShape type solutions ops ∧ script = assemble ops)
    (hv : type = .TX_VAULT → pushesDirectly script = true)
    (hscr : script.isPayToScriptHash = false) :
    params.testSolution tx nIn (assemble pushes) script = true ↔
      pushesDirectly script = true := by
  have hctx := params.acceptsSignatures_context tx nIn script
  rw [SigningParams.testSolution_iff, ← h.evalScript_iff hctx hs hv, h.evalScript_pushes]
  constructor
  · rintro ⟨stackCopy, stack, hcopy, heval, htop, -⟩
    obtain rfl := Except.ok.inj hcopy
    exact ⟨stack, heval, htop⟩
  · rintro ⟨stack, heval, htop⟩
    refine ⟨_, stack, rfl, heval, htop, fun hh => ?_⟩
    rw [hscr] at hh
    cases hh

/-- The redemption script is pushed after its solution. -/
theorem Solution.evalScript_pushData (h : Solution params keystore script hash type pushes)
    (hsize : script.length ≤ MAX_SCRIPT_ELEMENT_SIZE) (hone : script.length ≠ 1)
    (ctx : ScriptContext) :
    ((assemble pushes).pushData script).isPushOnly = true ∧
      evalScript ctx [] ((assemble pushes).pushData script) =
        .ok (script :: (pushes.map value).reverse) := by
  have hpushData : (assemble pushes).pushData script =
      assemble (pushes ++ [.ofData script hsize]) := by
    rw [pushData_eq_append_encode _ hsize, assemble_append, assemble_cons, assemble_nil, append_nil]
  have hmin : ∀ i ∈ pushes ++ [ofData script hsize], i.IsMinimalPush := by
    intro i hi
    obtain hi | hi := mem_append.mp hi
    · exact h.minimal i hi
    · rw [mem_singleton.mp hi]
      exact isMinimalPush_ofData hsize hone
  have hcnt := h.count
  have hlen : (assemble (pushes ++ [ofData script hsize])).length ≤ 10000 := by
    have hfst := length_assemble_le h.size
    have hl := length_encode_le (.ofData script hsize)
    have hmax : MAX_SCRIPT_ELEMENT_SIZE = 520 := rfl
    rw [data_ofData] at hl
    rw [assemble_append, assemble_cons, assemble_nil, append_nil, length_append]
    omega
  have hvs : ((pushes ++ [ofData script hsize]).map value).reverse =
      script :: (pushes.map value).reverse := by
    rw [map_append, map_singleton, value_ofData, reverse_append,
      reverse_singleton, singleton_append]
  rw [hpushData]
  constructor
  · rw [isPushOnly_assemble (by omega), List.all_eq_true]
    intro i hi
    exact decide_eq_true (hmin i hi).opcode_le
  · rw [← hvs]
    exact Divi.evalScript_pushes hmin
      (by rw [length_append, length_singleton]; omega) hlen

theorem evalScript_scriptHash {stack : StackType} (ho : outer.isPayToScriptHash = true)
    (hh : ctx.hashes.hash160 script = (outer.drop 2).take 20) (hsize : stack.length + 2 ≤ 1000) :
    evalScript ctx (script :: stack) outer = .ok (vchTrue :: stack) := by
  have hlen : outer.length ≤ 10000 := by
    simp only [CScript.isPayToScriptHash, Bool.and_eq_true, beq_iff_eq] at ho
    omega
  obtain ⟨hashPush, hdata, hdataLength, hdir, rfl⟩ := shape_of_isPayToScriptHash ho
  exact evalScript_assemble hlen
    (runOps_scripthash hdataLength hdir (hh.trans hdata.symm) hsize) rfl

theorem Solution.testSolution_scriptHash_iff (h : Solution params keystore script
      (params.signatureHash script tx nIn SIGHASH_ALL) type pushes)
    (hs : ∃ ops, HasShape type solutions ops ∧ script = assemble ops)
    (hv : type = .TX_VAULT → pushesDirectly script = true) (ho : outer.isPayToScriptHash = true)
    (hh : params.hashes.hash160 script = (outer.drop 2).take 20)
    (hsize : script.length ≤ MAX_SCRIPT_ELEMENT_SIZE) (hone : script.length ≠ 1) :
    params.testSolution tx nIn ((assemble pushes).pushData script) outer = true ↔
      pushesDirectly script = true := by
  have hctx := params.acceptsSignatures_context tx nIn script
  have hcnt := h.count
  obtain ⟨hpushOnly, hp⟩ := h.evalScript_pushData hsize hone (params.context tx nIn)
  have houterEval : evalScript (params.context tx nIn)
      (script :: (pushes.map value).reverse) outer =
      .ok (vchTrue :: (pushes.map value).reverse) :=
    evalScript_scriptHash ho hh (by rw [length_reverse, length_map]; omega)
  have hve : verifyScriptHash (params.context tx nIn)
        ((assemble pushes).pushData script) (script :: (pushes.map value).reverse) =
        .ok () ↔
      ∃ stack, evalScript (params.context tx nIn) (pushes.map value).reverse script =
        .ok stack ∧ checkTop stack = .ok () := by
    rw [verifyScriptHash, hpushOnly, Bool.not_true, if_neg Bool.false_ne_true]
    exact bind_eq_ok
  rw [SigningParams.testSolution_iff, ← h.evalScript_iff hctx hs hv, ← hve, hp]
  constructor
  · rintro ⟨stackCopy, stack, hcopy, -, -, hr⟩
    obtain rfl := Except.ok.inj hcopy
    exact hr ho
  · intro hr
    exact ⟨_, _, rfl, houterEval, rfl, fun _ => hr⟩

/-! ### Signing -/

/-- A redemption script is solved as other scripts are, but not if it is of that kind again. -/
theorem signSignature_of_scriptHash {solved : Bool} (hin : nIn < tx.vin.length)
    (ho : outer.isPayToScriptHash = true)
    (hget : keystore.getCScript ((outer.drop 2).take 20) = some script)
    (hcon : constructScriptSigOrGetRedemptionScript params.hashes keystore script
      (params.signatureHash script tx nIn SIGHASH_ALL) SIGHASH_ALL =
        (solved, scriptSig, type)) :
    params.signSignature keystore outer tx nIn SIGHASH_ALL =
      some (solved && decide (type ≠ .TX_SCRIPTHASH) &&
          params.testSolution (tx.setScriptSig nIn (scriptSig.pushData script)) nIn
            (scriptSig.pushData script) outer,
        tx.setScriptSig nIn (scriptSig.pushData script)) := by
  have houterConstruct : ∀ hash, constructScriptSigOrGetRedemptionScript params.hashes keystore
      outer hash SIGHASH_ALL = (true, script, .TX_SCRIPTHASH) := by
    intro hash
    simp [constructScriptSigOrGetRedemptionScript, scriptPubKeyFormatRet,
      extract_of_isPayToScriptHash ho, hget]
  rw [signSignature, if_pos hin]
  dsimp only
  rw [houterConstruct]
  rw [Bool.not_true, if_neg Bool.false_ne_true, if_pos rfl, signatureHash_setScriptSig, hcon]
  simp only [CMutableTransaction.setScriptSig, modify_modify_eq]
  cases hs : solved && decide (type ≠ .TX_SCRIPTHASH) with
  | false => rfl
  | true => rfl

theorem HasShape.two_le_length {ops : List Instruction} (h : HasShape type solutions ops) :
    2 ≤ (assemble ops).length := by
  refine le_trans ?_ (length_le_length_assemble ops)
  cases h with
  | pubkey => simp
  | pubkeyhash => simp
  | vault => simp
  | multisig => simp

section Owned

variable (hs : keystore.Consistent params)
  (hext : extractScriptPubKeyFormat script = some (type, solutions))
  (howns : keystore.Owns params.hashes type solutions)
  (huniq : ∀ key ∈ publicKeys script, ∀ stored,
    keystore.getPubKey (CPubKey.getID params.hashes key) = some stored → stored = key)

include howns

theorem type_ne_scriptHash_of_owned : type ≠ .TX_SCRIPTHASH := by
  rintro rfl
  exact howns

include hext

theorem shape_of_owned : ∃ ops, HasShape type solutions ops ∧ script = assemble ops :=
  shape_of_extract hext (type_ne_scriptHash_of_owned howns) (by rintro rfl; exact howns)

theorem not_isPayToScriptHash_of_owned : script.isPayToScriptHash = false := by
  rw [← Bool.not_eq_true]
  intro hh
  rw [extract_of_isPayToScriptHash hh] at hext
  obtain ⟨rfl, -⟩ := Prod.mk.inj (Option.some.inj hext)
  exact howns

include hs huniq

/-- A vault that is not recognised is not solved; every other script of the owner is. -/
theorem construct_of_owned (hash : uint256) : (pushesDirectly script = false ∧
      constructScriptSigOrGetRedemptionScript params.hashes keystore script hash SIGHASH_ALL =
        (false, [], type)) ∨
    ((type = .TX_VAULT → pushesDirectly script = true) ∧
      ∃ pushes, Solution params keystore script hash type pushes) := by
  by_cases hv : type = .TX_VAULT → pushesDirectly script = true
  · exact .inr ⟨hv, exists_solution hs hext howns huniq hv hash⟩
  · push Not at hv
    obtain ⟨rfl, hdir⟩ := hv
    rw [ne_eq, Bool.not_eq_true] at hdir
    obtain ⟨ops, hsh, -⟩ := shape_of_owned hext howns
    cases hsh with
    | vault owner mgr => exact .inl ⟨hdir, construct_vault_of_not_direct hext hdir hash⟩

variable (hin : nIn < tx.vin.length)

include hin

theorem signSignature_of_owned_iff :
    (∃ signed, params.signSignature keystore script tx nIn SIGHASH_ALL = some (true, signed)) ↔
      pushesDirectly script = true := by
  rw [signSignature, if_pos hin]
  dsimp only
  obtain ⟨hdir, hcon⟩ | ⟨hv, pushes, hsol⟩ :=
    construct_of_owned hs hext howns huniq
      (params.signatureHash script tx nIn SIGHASH_ALL)
  · rw [hcon, hdir]
    simp
  · have htest : params.testSolution (tx.setScriptSig nIn (assemble pushes)) nIn
        (assemble pushes) script = true ↔ pushesDirectly script = true :=
      Solution.testSolution_iff
        (by rw [signatureHash_setScriptSig]; exact hsol)
        (shape_of_owned hext howns) hv (not_isPayToScriptHash_of_owned hext howns)
    rw [hsol.construct]
    rw [Bool.not_true, if_neg Bool.false_ne_true, if_neg (type_ne_scriptHash_of_owned howns),
      ← htest]
    simp

theorem signSignature_of_redemption_iff (ho : outer.isPayToScriptHash = true)
    (hget : keystore.getCScript ((outer.drop 2).take 20) = some script)
    (hsize : script.length ≤ MAX_SCRIPT_ELEMENT_SIZE) :
    (∃ signed, params.signSignature keystore outer tx nIn SIGHASH_ALL = some (true, signed)) ↔
      pushesDirectly script = true := by
  have hsh := shape_of_owned hext howns
  obtain ⟨hdir, hcon⟩ | ⟨hv, pushes, hsol⟩ :=
    construct_of_owned hs hext howns huniq
      (params.signatureHash script tx nIn SIGHASH_ALL)
  · rw [signSignature_of_scriptHash hin ho hget hcon, hdir]
    simp
  · have hlen : 2 ≤ script.length := by
      obtain ⟨ops, hops, rfl⟩ := hsh
      exact hops.two_le_length
    have htest : params.testSolution
        (tx.setScriptSig nIn ((assemble pushes).pushData script)) nIn
        ((assemble pushes).pushData script) outer = true ↔ pushesDirectly script = true :=
      Solution.testSolution_scriptHash_iff
        (by rw [signatureHash_setScriptSig]; exact hsol) hsh hv ho
        (hs.hash_of_getCScript _ _ hget) hsize (by omega)
    rw [signSignature_of_scriptHash hin ho hget hsol.construct, ← htest]
    simp [type_ne_scriptHash_of_owned howns]

end Owned

theorem not_signSignature_of_nested (ho : outer.isPayToScriptHash = true)
    (hget : keystore.getCScript ((outer.drop 2).take 20) = some script)
    (hn : script.isPayToScriptHash = true) (hin : nIn < tx.vin.length) :
    ¬ ∃ signed, params.signSignature keystore outer tx nIn SIGHASH_ALL =
      some (true, signed) := by
  obtain ⟨solved, scriptSig, hcon⟩ : ∃ solved scriptSig,
      constructScriptSigOrGetRedemptionScript params.hashes keystore script
        (params.signatureHash script tx nIn SIGHASH_ALL) SIGHASH_ALL =
          (solved, scriptSig, .TX_SCRIPTHASH) := by
    simp only [constructScriptSigOrGetRedemptionScript, scriptPubKeyFormatRet,
      extract_of_isPayToScriptHash hn]
    exact ⟨_, _, rfl⟩
  rw [signSignature_of_scriptHash hin ho hget hcon]
  simp

/-- What the wallet takes for spendable with the keys of the owner is signed if the script whose
keys have to sign is no pay-to-script-hash itself and pushes its keys and hashes directly, and only
then. -/
theorem signSignature_of_isMine_iff (hs : keystore.Consistent params) {fuel : Nat}
    {vaultType : VaultType}
    (hmine : isMine params.hashes keystore fuel script = some (.ISMINE_SPENDABLE, vaultType))
    (hmanaged : vaultType ≠ .MANAGED_VAULT) (hin : nIn < tx.vin.length)
    (huniq : ∀ key ∈ publicKeys (keystore.spendingScript script), ∀ stored,
      keystore.getPubKey (CPubKey.getID params.hashes key) = some stored → stored = key)
    (hsize : script.isPayToScriptHash = true →
      (keystore.spendingScript script).length ≤ MAX_SCRIPT_ELEMENT_SIZE) :
    (∃ signed, params.signSignature keystore script tx nIn SIGHASH_ALL = some (true, signed)) ↔
      (keystore.spendingScript script).isPayToScriptHash = false ∧
        pushesDirectly (keystore.spendingScript script) = true := by
  obtain ⟨type, solutions, hext, howns | ⟨rfl, subscript, fuel', hget, hsub⟩⟩ :=
    isMine_cases hmanaged hmine
  · have hp := not_isPayToScriptHash_of_owned hext howns
    have hsp : keystore.spendingScript script = script := by
      rw [CKeyStore.spendingScript, hp, if_neg Bool.false_ne_true]
    rw [hsp] at huniq ⊢
    rw [signSignature_of_owned_iff hs hext howns huniq hin, hp]
    simp
  · have hscr := isPayToScriptHash_of_extract hext
    rw [extract_of_isPayToScriptHash hscr] at hext
    obtain ⟨-, rfl⟩ := Prod.mk.inj (Option.some.inj hext)
    have hsp : keystore.spendingScript script = subscript := by
      rw [CKeyStore.spendingScript, if_pos hscr]
      exact congrArg (Option.getD · []) hget
    rw [hsp] at huniq hsize ⊢
    obtain ⟨subType, subSolutions, hsubExtract, howns | ⟨rfl, -⟩⟩ := isMine_cases hmanaged hsub
    · rw [signSignature_of_redemption_iff hs hsubExtract howns huniq hin hscr hget
        (hsize hscr), not_isPayToScriptHash_of_owned hsubExtract howns]
      simp
    · have hn := isPayToScriptHash_of_extract hsubExtract
      rw [iff_false_left (not_signSignature_of_nested hscr hget hn hin), hn]
      simp

end

/-! ### A wallet with one key -/

/-- A key whose signatures are all the same. -/
def soleKey : CKey where
  getPubKey := 2 :: List.replicate 32 0
  sign _ := some ([0x30, 18, 2, 7] ++ List.replicate 7 1 ++ [2, 7] ++ List.replicate 7 1)
  getPubKey_encoding := by decide

def soleParameters : SigningParams where
  hashes := paddingHashes
  serializeHash _ _ := 0
  verify _ _ _ := true

def soleKeyHash : valtype := padTo 20 soleKey.getPubKey

/-- The hash of the key pushed with an opcode, or with one and the length. -/
def soleKeyScript (push : CScript) : CScript :=
  [OP_DUP, OP_HASH160] ++ push ++ soleKeyHash ++ [OP_EQUALVERIFY, OP_CHECKSIG]

def payToHashOf (script : CScript) : CScript :=
  [OP_HASH160, 0x14] ++ padTo 20 script ++ [OP_EQUAL]

/-- The store has a script and the script that pays to its hash. -/
def soleKeyStore : CKeyStore where
  haveKey id := id == soleKeyHash
  getKey id := if id = soleKeyHash then some soleKey else none
  getPubKey id := if id = soleKeyHash then some soleKey.getPubKey else none
  haveCScript _ := false
  getCScript id := [soleKeyScript [0x14], payToHashOf (soleKeyScript [0x14])].find?
    fun script => padTo 20 script == id
  haveWatchOnly _ := false
  haveMultiSig _ := false

theorem soleKeyStore_consistent : soleKeyStore.Consistent soleParameters where
  getKey_of_haveKey id h := ⟨soleKey, if_pos (eq_of_beq h)⟩
  getPubKey_of_getKey id key h := by
    obtain ⟨rfl, h⟩ := ite_none_right_eq_some.mp h
    cases h
    exact ⟨by decide, by decide⟩
  hash_of_getCScript id script h := by
    have hf : (padTo 20 script == id) = true :=
      List.find?_some (p := fun script => padTo 20 script == id) h
    exact eq_of_beq hf
  sign_verifies id key h hash := by
    obtain ⟨-, h⟩ := ite_none_right_eq_some.mp h
    cases h
    exact ⟨_, rfl, rfl, by decide, by decide⟩

/-- A transaction with one input and no outputs. -/
def soleTransaction : CMutableTransaction where
  vin := [{ prevout := ⟨1, 0⟩ }]

theorem signSignature_of_isMine_redemption :
    ∃ signed, soleParameters.signSignature soleKeyStore (payToHashOf (soleKeyScript [0x14]))
      soleTransaction 0 SIGHASH_ALL = some (true, signed) := by
  have hmine : isMine soleParameters.hashes soleKeyStore 2 (payToHashOf (soleKeyScript [0x14])) =
      some (.ISMINE_SPENDABLE, .NON_VAULT) := by decide
  refine (signSignature_of_isMine_iff soleKeyStore_consistent hmine (by decide) (by decide) ?_
    ?_).mpr ?_
  · decide
  · decide
  · decide

/-- The wallet takes a redemption script that is pay-to-script-hash again, and a key hash that is
pushed with its length, for spendable and signs neither. -/
theorem isMine_without_signature :
    soleKeyStore.Consistent soleParameters ∧ soleTransaction.isCoinStake = false ∧
    ∀ script ∈ [payToHashOf (payToHashOf (soleKeyScript [0x14])),
        soleKeyScript [OP_PUSHDATA1, 0x14]],
      isMine soleParameters.hashes soleKeyStore 3 script =
        some (.ISMINE_SPENDABLE, .NON_VAULT) ∧
      publicKeys (soleKeyStore.spendingScript script) = [] ∧
      (soleKeyStore.spendingScript script).length ≤ MAX_SCRIPT_ELEMENT_SIZE ∧
      ¬ ∃ signed, soleParameters.signSignature soleKeyStore script soleTransaction 0 SIGHASH_ALL =
        some (true, signed) := by
  refine ⟨soleKeyStore_consistent, by decide, ?_⟩
  simp only [forall_mem_cons, not_mem_nil, false_imp_iff, implies_true, and_true]
  refine ⟨⟨by decide, by decide, by decide, ?_⟩, by decide, by decide, by decide, ?_⟩
  · have hget : soleKeyStore.getCScript (padTo 20 (payToHashOf (soleKeyScript [0x14]))) =
        some (payToHashOf (soleKeyScript [0x14])) := by decide
    exact not_signSignature_of_nested (by decide) hget (by decide) (by decide)
  · have hext : extractScriptPubKeyFormat (soleKeyScript [OP_PUSHDATA1, 0x14]) =
        some (.TX_PUBKEYHASH, [soleKeyHash]) := by decide
    rw [signSignature_of_owned_iff soleKeyStore_consistent hext rfl (by decide) (by decide)]
    decide

end Divi
