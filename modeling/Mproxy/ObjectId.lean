import Mproxy.Lib.Classes
import Mproxy.OfVersion10

set_option relaxedAutoImplicit false
set_option autoImplicit false

/-!
# The classes of messages of version 1.0

Behind the validators `of_object_new_from_message` calls `of_header_wire_object_id_get`, which finds
out of which class the message is, and an initialiser for this class. The functions are generated,
and each is a switch on a number in the message, the same one on which the validator made its
choice. They read without a check. The numbers are those that `of_x_push_wire_types` writes into a
new object.

## Main definitions

* `Mproxy.OfObjectId` — the classes of messages.
* `Mproxy.OfVersion10.ofHeaderWireObjectIdGet` and what it calls — the class of a message.
* `Mproxy.OfObjectId.validator`, `Mproxy.ofObjectFixedLenV1` — what belongs to a class.
* `Mproxy.OfObjectId.pushWireTypes` — what is written into a new object.

## Main results

* `Mproxy.OfVersion10.ofHeaderWireObjectIdGet_fits` — the class that is found has the format of the
  message.
* `Mproxy.ofHeaderWireObjectIdGet_of10` — of an accepted message nothing is read outside, and no
  assertion fails.
* `Mproxy.ofHeaderWireObjectIdGet_push` — the class of a new object is found.
-/

namespace Mproxy

/-- `of_object_id_t`, without the classes that no message of version `1.0` is of. -/
inductive OfObjectId
  | aggregateStatsReply | aggregateStatsRequest | badActionErrorMsg | badRequestErrorMsg
  | barrierReply | barrierRequest | bsnBwClearDataReply | bsnBwClearDataRequest
  | bsnBwEnableGetReply | bsnBwEnableGetRequest | bsnBwEnableSetReply | bsnBwEnableSetRequest
  | bsnGetInterfacesReply | bsnGetInterfacesRequest | bsnGetIpMaskReply | bsnGetIpMaskRequest
  | bsnGetL2TableReply | bsnGetL2TableRequest | bsnGetMirroringReply | bsnGetMirroringRequest
  | bsnHeader | bsnHybridGetReply | bsnHybridGetRequest | bsnPduRxReply | bsnPduRxRequest
  | bsnPduRxTimeout | bsnPduTxReply | bsnPduTxRequest | bsnSetIpMask | bsnSetL2TableReply
  | bsnSetL2TableRequest | bsnSetMirroring | bsnSetPktinSuppressionReply
  | bsnSetPktinSuppressionRequest | bsnShellCommand | bsnShellOutput | bsnShellStatus
  | bsnStatsReply | bsnStatsRequest | bsnVirtualPortCreateReply | bsnVirtualPortCreateRequest
  | bsnVirtualPortRemoveReply | bsnVirtualPortRemoveRequest | descStatsReply | descStatsRequest
  | echoReply | echoRequest | errorMsg | experimenter | experimenterStatsReply
  | experimenterStatsRequest | featuresReply | featuresRequest | flowAdd | flowDelete
  | flowDeleteStrict | flowMod | flowModify | flowModifyStrict | flowModFailedErrorMsg | flowRemoved
  | flowStatsReply | flowStatsRequest | getConfigReply | getConfigRequest | header | hello
  | helloFailedErrorMsg | niciraControllerRoleReply | niciraControllerRoleRequest | niciraHeader
  | packetIn | packetOut | portMod | portModFailedErrorMsg | portStatsReply | portStatsRequest
  | portStatus | queueGetConfigReply | queueGetConfigRequest | queueOpFailedErrorMsg
  | queueStatsReply | queueStatsRequest | setConfig | statsReply | statsRequest | tableMod
  | tableStatsReply | tableStatsRequest
  deriving DecidableEq

namespace OfVersion10

open Wire

/-! ## The class of a message -/

/-- The class of an error, by its kind. -/
def ofErrorMsgWireObjectIdGet : Picker OfObjectId :=
  .switch 8 2
    [(0x0, .leaf .helloFailedErrorMsg), (0x1, .leaf .badRequestErrorMsg),
      (0x2, .leaf .badActionErrorMsg), (0x3, .leaf .flowModFailedErrorMsg),
      (0x4, .leaf .portModFailedErrorMsg), (0x5, .leaf .queueOpFailedErrorMsg)] .errorMsg

/-- The class of a message of the experimenter `nicira`, by its subtype. -/
def ofNiciraHeaderWireObjectIdGet : Picker OfObjectId :=
  .switch 12 4
    [(0xa, .leaf .niciraControllerRoleRequest), (0xb, .leaf .niciraControllerRoleReply)]
      .niciraHeader

/-- The class of a message of the experimenter `bsn`, by its subtype. -/
def ofBsnHeaderWireObjectIdGet : Picker OfObjectId :=
  .switch 12 4
    [(0x0, .leaf .bsnSetIpMask), (0x1, .leaf .bsnGetIpMaskRequest), (0x2, .leaf .bsnGetIpMaskReply),
      (0x3, .leaf .bsnSetMirroring), (0x4, .leaf .bsnGetMirroringRequest),
      (0x5, .leaf .bsnGetMirroringReply), (0x6, .leaf .bsnShellCommand),
      (0x7, .leaf .bsnShellOutput),
      (0x8, .leaf .bsnShellStatus), (0x9, .leaf .bsnGetInterfacesRequest),
      (0xa, .leaf .bsnGetInterfacesReply), (0xb, .leaf .bsnSetPktinSuppressionRequest),
      (0xc, .leaf .bsnSetL2TableRequest), (0xd, .leaf .bsnGetL2TableRequest),
      (0xe, .leaf .bsnGetL2TableReply), (0xf, .leaf .bsnVirtualPortCreateRequest),
      (0x10, .leaf .bsnVirtualPortCreateReply), (0x11, .leaf .bsnVirtualPortRemoveRequest),
      (0x12, .leaf .bsnBwEnableSetRequest), (0x13, .leaf .bsnBwEnableGetRequest),
      (0x14, .leaf .bsnBwEnableGetReply), (0x15, .leaf .bsnBwClearDataRequest),
      (0x16, .leaf .bsnBwClearDataReply), (0x17, .leaf .bsnBwEnableSetReply),
      (0x18, .leaf .bsnSetL2TableReply), (0x19, .leaf .bsnSetPktinSuppressionReply),
      (0x1a, .leaf .bsnVirtualPortRemoveReply), (0x1b, .leaf .bsnHybridGetRequest),
      (0x1c, .leaf .bsnHybridGetReply), (0x1f, .leaf .bsnPduTxRequest),
      (0x20, .leaf .bsnPduTxReply),
      (0x21, .leaf .bsnPduRxRequest), (0x22, .leaf .bsnPduRxReply), (0x23, .leaf .bsnPduRxTimeout)]
      .bsnHeader

/-- The class of a message of an experimenter, by who it is. -/
def ofExperimenterWireObjectIdGet : Picker OfObjectId :=
  .switch 8 4
    [(0x2320, ofNiciraHeaderWireObjectIdGet), (0x5c16c7, ofBsnHeaderWireObjectIdGet)] .experimenter

/-- The class of a flow modification, by its command. -/
def ofFlowModWireObjectIdGet : Picker OfObjectId :=
  .switch 56 2
    [(0x0, .leaf .flowAdd), (0x1, .leaf .flowModify), (0x2, .leaf .flowModifyStrict),
      (0x3, .leaf .flowDelete), (0x4, .leaf .flowDeleteStrict)] .flowMod

/-- The class of a request for statistics of `bsn`. No subtype has a class of its own. -/
def ofBsnStatsRequestWireObjectIdGet : Picker OfObjectId :=
  .switch 20 4 [] .bsnStatsRequest

/-- The class of a request for statistics of an experimenter, by who it is. -/
def ofExperimenterStatsRequestWireObjectIdGet : Picker OfObjectId :=
  .switch 12 4
    [(0x5c16c7, ofBsnStatsRequestWireObjectIdGet)] .experimenterStatsRequest

/-- The class of a request for statistics, by their kind. -/
def ofStatsRequestWireObjectIdGet : Picker OfObjectId :=
  .switch 8 2
    [(0x0, .leaf .descStatsRequest), (0x1, .leaf .flowStatsRequest),
      (0x2, .leaf .aggregateStatsRequest), (0x3, .leaf .tableStatsRequest),
      (0x4, .leaf .portStatsRequest), (0x5, .leaf .queueStatsRequest),
      (0xffff, ofExperimenterStatsRequestWireObjectIdGet)] .statsRequest

/-- The class of a reply with statistics of `bsn`. No subtype has a class of its own. -/
def ofBsnStatsReplyWireObjectIdGet : Picker OfObjectId :=
  .switch 20 4 [] .bsnStatsReply

/-- The class of a reply with statistics of an experimenter, by who it is. -/
def ofExperimenterStatsReplyWireObjectIdGet : Picker OfObjectId :=
  .switch 12 4
    [(0x5c16c7, ofBsnStatsReplyWireObjectIdGet)] .experimenterStatsReply

/-- The class of a reply with statistics, by their kind. -/
def ofStatsReplyWireObjectIdGet : Picker OfObjectId :=
  .switch 8 2
    [(0x0, .leaf .descStatsReply), (0x1, .leaf .flowStatsReply), (0x2, .leaf .aggregateStatsReply),
      (0x3, .leaf .tableStatsReply), (0x4, .leaf .portStatsReply), (0x5, .leaf .queueStatsReply),
      (0xffff, ofExperimenterStatsReplyWireObjectIdGet)] .statsReply

/-- **The class of a message**, by its type. -/
def ofHeaderWireObjectIdGet : Picker OfObjectId :=
  .switch 1 1
    [(0x0, .leaf .hello), (0x1, ofErrorMsgWireObjectIdGet), (0x2, .leaf .echoRequest),
      (0x3, .leaf .echoReply), (0x4, ofExperimenterWireObjectIdGet), (0x5, .leaf .featuresRequest),
      (0x6, .leaf .featuresReply), (0x7, .leaf .getConfigRequest), (0x8, .leaf .getConfigReply),
      (0x9, .leaf .setConfig), (0xa, .leaf .packetIn), (0xb, .leaf .flowRemoved),
      (0xc, .leaf .portStatus), (0xd, .leaf .packetOut), (0xe, ofFlowModWireObjectIdGet),
      (0xf, .leaf .portMod), (0x10, ofStatsRequestWireObjectIdGet),
      (0x11, ofStatsReplyWireObjectIdGet), (0x12, .leaf .barrierRequest),
      (0x13, .leaf .barrierReply),
      (0x14, .leaf .queueGetConfigRequest), (0x15, .leaf .queueGetConfigReply),
      (0x16, .leaf .tableMod)] .header

end OfVersion10

/-! ## What belongs to a class -/

open OfVersion10 Wire

/-- The validator of a class, `loci_validate_of_x_OF_VERSION_1_0`. -/
def OfObjectId.validator : OfObjectId → Sized 2
  | .aggregateStatsReply => lociValidateOfAggregateStatsReply
  | .aggregateStatsRequest => lociValidateOfAggregateStatsRequest
  | .badActionErrorMsg => lociValidateOfBadActionErrorMsg
  | .badRequestErrorMsg => lociValidateOfBadRequestErrorMsg
  | .barrierReply => lociValidateOfBarrierReply
  | .barrierRequest => lociValidateOfBarrierRequest
  | .bsnBwClearDataReply => lociValidateOfBsnBwClearDataReply
  | .bsnBwClearDataRequest => lociValidateOfBsnBwClearDataRequest
  | .bsnBwEnableGetReply => lociValidateOfBsnBwEnableGetReply
  | .bsnBwEnableGetRequest => lociValidateOfBsnBwEnableGetRequest
  | .bsnBwEnableSetReply => lociValidateOfBsnBwEnableSetReply
  | .bsnBwEnableSetRequest => lociValidateOfBsnBwEnableSetRequest
  | .bsnGetInterfacesReply => lociValidateOfBsnGetInterfacesReply
  | .bsnGetInterfacesRequest => lociValidateOfBsnGetInterfacesRequest
  | .bsnGetIpMaskReply => lociValidateOfBsnGetIpMaskReply
  | .bsnGetIpMaskRequest => lociValidateOfBsnGetIpMaskRequest
  | .bsnGetL2TableReply => lociValidateOfBsnGetL2TableReply
  | .bsnGetL2TableRequest => lociValidateOfBsnGetL2TableRequest
  | .bsnGetMirroringReply => lociValidateOfBsnGetMirroringReply
  | .bsnGetMirroringRequest => lociValidateOfBsnGetMirroringRequest
  | .bsnHeader => lociValidateOfBsnHeader
  | .bsnHybridGetReply => lociValidateOfBsnHybridGetReply
  | .bsnHybridGetRequest => lociValidateOfBsnHybridGetRequest
  | .bsnPduRxReply => lociValidateOfBsnPduRxReply
  | .bsnPduRxRequest => lociValidateOfBsnPduRxRequest
  | .bsnPduRxTimeout => lociValidateOfBsnPduRxTimeout
  | .bsnPduTxReply => lociValidateOfBsnPduTxReply
  | .bsnPduTxRequest => lociValidateOfBsnPduTxRequest
  | .bsnSetIpMask => lociValidateOfBsnSetIpMask
  | .bsnSetL2TableReply => lociValidateOfBsnSetL2TableReply
  | .bsnSetL2TableRequest => lociValidateOfBsnSetL2TableRequest
  | .bsnSetMirroring => lociValidateOfBsnSetMirroring
  | .bsnSetPktinSuppressionReply => lociValidateOfBsnSetPktinSuppressionReply
  | .bsnSetPktinSuppressionRequest => lociValidateOfBsnSetPktinSuppressionRequest
  | .bsnShellCommand => lociValidateOfBsnShellCommand
  | .bsnShellOutput => lociValidateOfBsnShellOutput
  | .bsnShellStatus => lociValidateOfBsnShellStatus
  | .bsnStatsReply => lociValidateOfBsnStatsReply
  | .bsnStatsRequest => lociValidateOfBsnStatsRequest
  | .bsnVirtualPortCreateReply => lociValidateOfBsnVirtualPortCreateReply
  | .bsnVirtualPortCreateRequest => lociValidateOfBsnVirtualPortCreateRequest
  | .bsnVirtualPortRemoveReply => lociValidateOfBsnVirtualPortRemoveReply
  | .bsnVirtualPortRemoveRequest => lociValidateOfBsnVirtualPortRemoveRequest
  | .descStatsReply => lociValidateOfDescStatsReply
  | .descStatsRequest => lociValidateOfDescStatsRequest
  | .echoReply => lociValidateOfEchoReply
  | .echoRequest => lociValidateOfEchoRequest
  | .errorMsg => lociValidateOfErrorMsg
  | .experimenter => lociValidateOfExperimenter
  | .experimenterStatsReply => lociValidateOfExperimenterStatsReply
  | .experimenterStatsRequest => lociValidateOfExperimenterStatsRequest
  | .featuresReply => lociValidateOfFeaturesReply
  | .featuresRequest => lociValidateOfFeaturesRequest
  | .flowAdd => lociValidateOfFlowAdd
  | .flowDelete => lociValidateOfFlowDelete
  | .flowDeleteStrict => lociValidateOfFlowDeleteStrict
  | .flowMod => lociValidateOfFlowMod
  | .flowModify => lociValidateOfFlowModify
  | .flowModifyStrict => lociValidateOfFlowModifyStrict
  | .flowModFailedErrorMsg => lociValidateOfFlowModFailedErrorMsg
  | .flowRemoved => lociValidateOfFlowRemoved
  | .flowStatsReply => lociValidateOfFlowStatsReply
  | .flowStatsRequest => lociValidateOfFlowStatsRequest
  | .getConfigReply => lociValidateOfGetConfigReply
  | .getConfigRequest => lociValidateOfGetConfigRequest
  | .header => lociValidateOfHeader
  | .hello => lociValidateOfHello
  | .helloFailedErrorMsg => lociValidateOfHelloFailedErrorMsg
  | .niciraControllerRoleReply => lociValidateOfNiciraControllerRoleReply
  | .niciraControllerRoleRequest => lociValidateOfNiciraControllerRoleRequest
  | .niciraHeader => lociValidateOfNiciraHeader
  | .packetIn => lociValidateOfPacketIn
  | .packetOut => lociValidateOfPacketOut
  | .portMod => lociValidateOfPortMod
  | .portModFailedErrorMsg => lociValidateOfPortModFailedErrorMsg
  | .portStatsReply => lociValidateOfPortStatsReply
  | .portStatsRequest => lociValidateOfPortStatsRequest
  | .portStatus => lociValidateOfPortStatus
  | .queueGetConfigReply => lociValidateOfQueueGetConfigReply
  | .queueGetConfigRequest => lociValidateOfQueueGetConfigRequest
  | .queueOpFailedErrorMsg => lociValidateOfQueueOpFailedErrorMsg
  | .queueStatsReply => lociValidateOfQueueStatsReply
  | .queueStatsRequest => lociValidateOfQueueStatsRequest
  | .setConfig => lociValidateOfSetConfig
  | .statsReply => lociValidateOfStatsReply
  | .statsRequest => lociValidateOfStatsRequest
  | .tableMod => lociValidateOfTableMod
  | .tableStatsReply => lociValidateOfTableStatsReply
  | .tableStatsRequest => lociValidateOfTableStatsRequest

/-- `of_object_fixed_len_v1` -/
def ofObjectFixedLenV1 : OfObjectId → ℤ
  | .barrierReply | .barrierRequest | .echoReply | .echoRequest | .featuresRequest
  | .getConfigRequest | .header | .hello => 8
  | .errorMsg => 10
  | .badActionErrorMsg | .badRequestErrorMsg | .descStatsRequest | .experimenter
  | .flowModFailedErrorMsg | .flowStatsReply | .getConfigReply | .helloFailedErrorMsg
  | .portModFailedErrorMsg | .portStatsReply | .queueGetConfigRequest | .queueOpFailedErrorMsg
  | .queueStatsReply | .setConfig | .statsReply | .statsRequest | .tableStatsReply
  | .tableStatsRequest => 12
  | .bsnBwClearDataRequest | .bsnBwEnableGetRequest | .bsnGetInterfacesReply
  | .bsnGetInterfacesRequest | .bsnGetL2TableRequest | .bsnHeader | .bsnHybridGetRequest
  | .bsnShellOutput | .experimenterStatsReply | .experimenterStatsRequest | .niciraHeader
  | .packetOut | .queueGetConfigReply | .tableMod => 16
  | .packetIn => 18
  | .bsnPduRxTimeout => 19
  | .bsnBwClearDataReply | .bsnBwEnableGetReply | .bsnBwEnableSetRequest | .bsnGetMirroringReply
  | .bsnGetMirroringRequest | .bsnSetMirroring | .bsnSetPktinSuppressionReply | .bsnShellCommand
  | .bsnShellStatus | .bsnVirtualPortCreateRequest | .bsnVirtualPortRemoveReply
  | .bsnVirtualPortRemoveRequest | .niciraControllerRoleReply | .niciraControllerRoleRequest
  | .portStatsRequest | .queueStatsRequest => 20
  | .bsnPduRxReply | .bsnPduTxReply => 23
  | .bsnBwEnableSetReply | .bsnGetIpMaskReply | .bsnGetIpMaskRequest | .bsnGetL2TableReply
  | .bsnHybridGetReply | .bsnSetIpMask | .bsnSetL2TableReply | .bsnSetL2TableRequest
  | .bsnStatsReply | .bsnStatsRequest | .bsnVirtualPortCreateReply => 24
  | .bsnPduRxRequest | .bsnPduTxRequest => 26
  | .bsnSetPktinSuppressionRequest | .featuresReply | .portMod => 32
  | .aggregateStatsReply => 36
  | .aggregateStatsRequest | .flowStatsRequest => 56
  | .portStatus => 64
  | .flowAdd | .flowDelete | .flowDeleteStrict | .flowMod | .flowModify | .flowModifyStrict => 72
  | .flowRemoved => 88
  | .descStatsReply => 1068

/-- The version and the type of a message, and what else says out of which class it is. -/
def messageTypes (type : ℕ) (more : List Tag) : List Tag := ((0, 1), 1) :: ((1, 1), type) :: more

/-- What `of_x_push_wire_types` writes, for messages of version `1.0`; there is no such function for
a class that is only a name for others. -/
def OfObjectId.wireTypes : OfObjectId → Option (List Tag)
  | .aggregateStatsReply => some (messageTypes 0x11 [((8, 2), 0x2)])
  | .aggregateStatsRequest => some (messageTypes 0x10 [((8, 2), 0x2)])
  | .badActionErrorMsg => some (messageTypes 0x1 [((8, 2), 0x2)])
  | .badRequestErrorMsg => some (messageTypes 0x1 [((8, 2), 0x1)])
  | .barrierReply => some (messageTypes 0x13 [])
  | .barrierRequest => some (messageTypes 0x12 [])
  | .bsnBwClearDataReply => some (messageTypes 0x4 [((8, 4), 0x5c16c7), ((12, 4), 0x16)])
  | .bsnBwClearDataRequest => some (messageTypes 0x4 [((8, 4), 0x5c16c7), ((12, 4), 0x15)])
  | .bsnBwEnableGetReply => some (messageTypes 0x4 [((8, 4), 0x5c16c7), ((12, 4), 0x14)])
  | .bsnBwEnableGetRequest => some (messageTypes 0x4 [((8, 4), 0x5c16c7), ((12, 4), 0x13)])
  | .bsnBwEnableSetReply => some (messageTypes 0x4 [((8, 4), 0x5c16c7), ((12, 4), 0x17)])
  | .bsnBwEnableSetRequest => some (messageTypes 0x4 [((8, 4), 0x5c16c7), ((12, 4), 0x12)])
  | .bsnGetInterfacesReply => some (messageTypes 0x4 [((8, 4), 0x5c16c7), ((12, 4), 0xa)])
  | .bsnGetInterfacesRequest => some (messageTypes 0x4 [((8, 4), 0x5c16c7), ((12, 4), 0x9)])
  | .bsnGetIpMaskReply => some (messageTypes 0x4 [((8, 4), 0x5c16c7), ((12, 4), 0x2)])
  | .bsnGetIpMaskRequest => some (messageTypes 0x4 [((8, 4), 0x5c16c7), ((12, 4), 0x1)])
  | .bsnGetL2TableReply => some (messageTypes 0x4 [((8, 4), 0x5c16c7), ((12, 4), 0xe)])
  | .bsnGetL2TableRequest => some (messageTypes 0x4 [((8, 4), 0x5c16c7), ((12, 4), 0xd)])
  | .bsnGetMirroringReply => some (messageTypes 0x4 [((8, 4), 0x5c16c7), ((12, 4), 0x5)])
  | .bsnGetMirroringRequest => some (messageTypes 0x4 [((8, 4), 0x5c16c7), ((12, 4), 0x4)])
  | .bsnHybridGetReply => some (messageTypes 0x4 [((8, 4), 0x5c16c7), ((12, 4), 0x1c)])
  | .bsnHybridGetRequest => some (messageTypes 0x4 [((8, 4), 0x5c16c7), ((12, 4), 0x1b)])
  | .bsnPduRxReply => some (messageTypes 0x4 [((8, 4), 0x5c16c7), ((12, 4), 0x22)])
  | .bsnPduRxRequest => some (messageTypes 0x4 [((8, 4), 0x5c16c7), ((12, 4), 0x21)])
  | .bsnPduRxTimeout => some (messageTypes 0x4 [((8, 4), 0x5c16c7), ((12, 4), 0x23)])
  | .bsnPduTxReply => some (messageTypes 0x4 [((8, 4), 0x5c16c7), ((12, 4), 0x20)])
  | .bsnPduTxRequest => some (messageTypes 0x4 [((8, 4), 0x5c16c7), ((12, 4), 0x1f)])
  | .bsnSetIpMask => some (messageTypes 0x4 [((8, 4), 0x5c16c7), ((12, 4), 0x0)])
  | .bsnSetL2TableReply => some (messageTypes 0x4 [((8, 4), 0x5c16c7), ((12, 4), 0x18)])
  | .bsnSetL2TableRequest => some (messageTypes 0x4 [((8, 4), 0x5c16c7), ((12, 4), 0xc)])
  | .bsnSetMirroring => some (messageTypes 0x4 [((8, 4), 0x5c16c7), ((12, 4), 0x3)])
  | .bsnSetPktinSuppressionReply => some (messageTypes 0x4 [((8, 4), 0x5c16c7), ((12, 4), 0x19)])
  | .bsnSetPktinSuppressionRequest => some (messageTypes 0x4 [((8, 4), 0x5c16c7), ((12, 4), 0xb)])
  | .bsnShellCommand => some (messageTypes 0x4 [((8, 4), 0x5c16c7), ((12, 4), 0x6)])
  | .bsnShellOutput => some (messageTypes 0x4 [((8, 4), 0x5c16c7), ((12, 4), 0x7)])
  | .bsnShellStatus => some (messageTypes 0x4 [((8, 4), 0x5c16c7), ((12, 4), 0x8)])
  | .bsnVirtualPortCreateReply => some (messageTypes 0x4 [((8, 4), 0x5c16c7), ((12, 4), 0x10)])
  | .bsnVirtualPortCreateRequest => some (messageTypes 0x4 [((8, 4), 0x5c16c7), ((12, 4), 0xf)])
  | .bsnVirtualPortRemoveReply => some (messageTypes 0x4 [((8, 4), 0x5c16c7), ((12, 4), 0x1a)])
  | .bsnVirtualPortRemoveRequest => some (messageTypes 0x4 [((8, 4), 0x5c16c7), ((12, 4), 0x11)])
  | .descStatsReply => some (messageTypes 0x11 [((8, 2), 0x0)])
  | .descStatsRequest => some (messageTypes 0x10 [((8, 2), 0x0)])
  | .echoReply => some (messageTypes 0x3 [])
  | .echoRequest => some (messageTypes 0x2 [])
  | .featuresReply => some (messageTypes 0x6 [])
  | .featuresRequest => some (messageTypes 0x5 [])
  | .flowAdd => some (messageTypes 0xe [((56, 2), 0x0)])
  | .flowDelete => some (messageTypes 0xe [((56, 2), 0x3)])
  | .flowDeleteStrict => some (messageTypes 0xe [((56, 2), 0x4)])
  | .flowModify => some (messageTypes 0xe [((56, 2), 0x1)])
  | .flowModifyStrict => some (messageTypes 0xe [((56, 2), 0x2)])
  | .flowModFailedErrorMsg => some (messageTypes 0x1 [((8, 2), 0x3)])
  | .flowRemoved => some (messageTypes 0xb [])
  | .flowStatsReply => some (messageTypes 0x11 [((8, 2), 0x1)])
  | .flowStatsRequest => some (messageTypes 0x10 [((8, 2), 0x1)])
  | .getConfigReply => some (messageTypes 0x8 [])
  | .getConfigRequest => some (messageTypes 0x7 [])
  | .hello => some (messageTypes 0x0 [])
  | .helloFailedErrorMsg => some (messageTypes 0x1 [((8, 2), 0x0)])
  | .niciraControllerRoleReply => some (messageTypes 0x4 [((8, 4), 0x2320), ((12, 4), 0xb)])
  | .niciraControllerRoleRequest => some (messageTypes 0x4 [((8, 4), 0x2320), ((12, 4), 0xa)])
  | .packetIn => some (messageTypes 0xa [])
  | .packetOut => some (messageTypes 0xd [])
  | .portMod => some (messageTypes 0xf [])
  | .portModFailedErrorMsg => some (messageTypes 0x1 [((8, 2), 0x4)])
  | .portStatsReply => some (messageTypes 0x11 [((8, 2), 0x4)])
  | .portStatsRequest => some (messageTypes 0x10 [((8, 2), 0x4)])
  | .portStatus => some (messageTypes 0xc [])
  | .queueGetConfigReply => some (messageTypes 0x15 [])
  | .queueGetConfigRequest => some (messageTypes 0x14 [])
  | .queueOpFailedErrorMsg => some (messageTypes 0x1 [((8, 2), 0x5)])
  | .queueStatsReply => some (messageTypes 0x11 [((8, 2), 0x5)])
  | .queueStatsRequest => some (messageTypes 0x10 [((8, 2), 0x5)])
  | .setConfig => some (messageTypes 0x9 [])
  | .tableMod => some (messageTypes 0x16 [])
  | .tableStatsReply => some (messageTypes 0x11 [((8, 2), 0x3)])
  | .tableStatsRequest => some (messageTypes 0x10 [((8, 2), 0x3)])
  | .bsnHeader | .bsnStatsReply | .bsnStatsRequest | .errorMsg | .experimenter
  | .experimenterStatsReply | .experimenterStatsRequest | .flowMod | .header | .niciraHeader
  | .statsReply | .statsRequest => none

/-- `of_x_push_wire_types` -/
def OfObjectId.pushWireTypes (i : OfObjectId) (buf : List UInt8) : List UInt8 :=
  push (i.wireTypes.getD []) buf

/-- The format of a class has its fixed length at least, and this is not negative: there is such a
class in version `1.0`. -/
lemma fixedLen_le (i : OfObjectId) {b : List UInt8} (h : i.validator.Encodes b) :
    0 ≤ ofObjectFixedLenV1 i ∧ ofObjectFixedLenV1 i ≤ b.length := by
  constructor
  · cases i <;> decide
  · cases i <;> exact Int.ofNat_le.mpr h.1.ge

/-- What is written of a class lies in its fixed part, one beside the other. -/
lemma wireTypes_ok {j : OfObjectId} {tags : List Tag} (h : j.wireTypes = some tags) :
    (∀ c ∈ tags, (c.1.1 + c.1.2 : ℕ) ≤ ofObjectFixedLenV1 j ∧ c.2 < 256 ^ c.1.2) ∧
      tags.Pairwise fun c d => d.Apart c := by
  have hall : ∀ tags ∈ j.wireTypes,
      (∀ c ∈ tags, (c.1.1 + c.1.2 : ℕ) ≤ ofObjectFixedLenV1 j ∧ c.2 < 256 ^ c.1.2) ∧
        tags.Pairwise fun c d => d.Apart c := by
    cases j <;> decide
  exact hall tags h

namespace OfVersion10

open Picker (fits_leaf fits_switch finds_leaf finds_switch)

/-! ## The class fits the validators -/

/-- The classes of errors fit. -/
lemma ofErrorMsgWireObjectIdGet_fits :
    Picker.Fits OfObjectId.validator OfObjectId.wireTypes [((1, 1), 0x1), ((0, 1), 1)]
      ofErrorMsgWireObjectIdGet lociValidateOfErrorMsg := by
  refine fits_switch rfl (by decide) ?_
  repeat' refine List.forall_mem_cons.mpr ⟨⟨_, rfl, fits_leaf (by decide)⟩, ?_⟩
  exact List.forall_mem_nil _

/-- The classes of messages of `nicira` fit. -/
lemma ofNiciraHeaderWireObjectIdGet_fits :
    Picker.Fits OfObjectId.validator OfObjectId.wireTypes
      [((8, 4), 0x2320), ((1, 1), 0x4), ((0, 1), 1)]
      ofNiciraHeaderWireObjectIdGet lociValidateOfNiciraHeader := by
  refine fits_switch rfl (by decide) ?_
  repeat' refine List.forall_mem_cons.mpr ⟨⟨_, rfl, fits_leaf (by decide)⟩, ?_⟩
  exact List.forall_mem_nil _

/-- The classes of messages of `bsn` fit. -/
lemma ofBsnHeaderWireObjectIdGet_fits :
    Picker.Fits OfObjectId.validator OfObjectId.wireTypes
      [((8, 4), 0x5c16c7), ((1, 1), 0x4), ((0, 1), 1)]
      ofBsnHeaderWireObjectIdGet lociValidateOfBsnHeader := by
  refine fits_switch rfl (by decide) ?_
  repeat' refine List.forall_mem_cons.mpr ⟨⟨_, rfl, fits_leaf (by decide)⟩, ?_⟩
  exact List.forall_mem_nil _

/-- The classes of messages of experimenters fit. -/
lemma ofExperimenterWireObjectIdGet_fits :
    Picker.Fits OfObjectId.validator OfObjectId.wireTypes [((1, 1), 0x4), ((0, 1), 1)]
      ofExperimenterWireObjectIdGet lociValidateOfExperimenter := by
  refine fits_switch rfl (by decide) ?_
  refine List.forall_mem_cons.mpr ⟨⟨_, rfl, ofNiciraHeaderWireObjectIdGet_fits⟩, ?_⟩
  refine List.forall_mem_cons.mpr ⟨⟨_, rfl, ofBsnHeaderWireObjectIdGet_fits⟩, ?_⟩
  exact List.forall_mem_nil _

/-- The classes of flow modifications fit. -/
lemma ofFlowModWireObjectIdGet_fits :
    Picker.Fits OfObjectId.validator OfObjectId.wireTypes [((1, 1), 0xe), ((0, 1), 1)]
      ofFlowModWireObjectIdGet lociValidateOfFlowMod := by
  refine fits_switch rfl (by decide) ?_
  repeat' refine List.forall_mem_cons.mpr ⟨⟨_, rfl, fits_leaf (by decide)⟩, ?_⟩
  exact List.forall_mem_nil _

/-- The class of requests for statistics of `bsn` fits. -/
lemma ofBsnStatsRequestWireObjectIdGet_fits :
    Picker.Fits OfObjectId.validator OfObjectId.wireTypes
      [((12, 4), 0x5c16c7), ((8, 2), 0xffff), ((1, 1), 0x10), ((0, 1), 1)]
      ofBsnStatsRequestWireObjectIdGet lociValidateOfBsnStatsRequest := by
  refine fits_switch rfl (by decide) ?_
  exact List.forall_mem_nil _

/-- The classes of requests for statistics of experimenters fit. -/
lemma ofExperimenterStatsRequestWireObjectIdGet_fits :
    Picker.Fits OfObjectId.validator OfObjectId.wireTypes
      [((8, 2), 0xffff), ((1, 1), 0x10), ((0, 1), 1)]
      ofExperimenterStatsRequestWireObjectIdGet lociValidateOfExperimenterStatsRequest := by
  refine fits_switch rfl (by decide) ?_
  refine List.forall_mem_cons.mpr ⟨⟨_, rfl, ofBsnStatsRequestWireObjectIdGet_fits⟩, ?_⟩
  exact List.forall_mem_nil _

/-- The classes of requests for statistics fit. -/
lemma ofStatsRequestWireObjectIdGet_fits :
    Picker.Fits OfObjectId.validator OfObjectId.wireTypes [((1, 1), 0x10), ((0, 1), 1)]
      ofStatsRequestWireObjectIdGet lociValidateOfStatsRequest := by
  refine fits_switch rfl (by decide) ?_
  repeat' refine List.forall_mem_cons.mpr ⟨⟨_, rfl, fits_leaf (by decide)⟩, ?_⟩
  refine List.forall_mem_cons.mpr ⟨⟨_, rfl, ofExperimenterStatsRequestWireObjectIdGet_fits⟩, ?_⟩
  exact List.forall_mem_nil _

/-- The class of replies with statistics of `bsn` fits. -/
lemma ofBsnStatsReplyWireObjectIdGet_fits :
    Picker.Fits OfObjectId.validator OfObjectId.wireTypes
      [((12, 4), 0x5c16c7), ((8, 2), 0xffff), ((1, 1), 0x11), ((0, 1), 1)]
      ofBsnStatsReplyWireObjectIdGet lociValidateOfBsnStatsReply := by
  refine fits_switch rfl (by decide) ?_
  exact List.forall_mem_nil _

/-- The classes of replies with statistics of experimenters fit. -/
lemma ofExperimenterStatsReplyWireObjectIdGet_fits :
    Picker.Fits OfObjectId.validator OfObjectId.wireTypes
      [((8, 2), 0xffff), ((1, 1), 0x11), ((0, 1), 1)]
      ofExperimenterStatsReplyWireObjectIdGet lociValidateOfExperimenterStatsReply := by
  refine fits_switch rfl (by decide) ?_
  refine List.forall_mem_cons.mpr ⟨⟨_, rfl, ofBsnStatsReplyWireObjectIdGet_fits⟩, ?_⟩
  exact List.forall_mem_nil _

/-- The classes of replies with statistics fit. -/
lemma ofStatsReplyWireObjectIdGet_fits :
    Picker.Fits OfObjectId.validator OfObjectId.wireTypes [((1, 1), 0x11), ((0, 1), 1)]
      ofStatsReplyWireObjectIdGet lociValidateOfStatsReply := by
  refine fits_switch rfl (by decide) ?_
  repeat' refine List.forall_mem_cons.mpr ⟨⟨_, rfl, fits_leaf (by decide)⟩, ?_⟩
  refine List.forall_mem_cons.mpr ⟨⟨_, rfl, ofExperimenterStatsReplyWireObjectIdGet_fits⟩, ?_⟩
  exact List.forall_mem_nil _

/-- **The class of a message.** For a message that the validator accepts a class is found; the
validator of this class accepts the message, and what `of_x_push_wire_types` would write is there.

**Proof sketch.** By the switches: each case of `of_x_wire_object_id_get` is one of the validator
for `of_x`, on the same number. -/
theorem ofHeaderWireObjectIdGet_fits :
    Picker.Fits OfObjectId.validator OfObjectId.wireTypes [((0, 1), 1)]
      ofHeaderWireObjectIdGet lociValidateOfHeader := by
  refine fits_switch rfl (by decide) ?_
  have herror := ofErrorMsgWireObjectIdGet_fits
  have hexperimenter := ofExperimenterWireObjectIdGet_fits
  have hflowMod := ofFlowModWireObjectIdGet_fits
  have hrequest := ofStatsRequestWireObjectIdGet_fits
  have hreply := ofStatsReplyWireObjectIdGet_fits
  repeat' first
    | refine List.forall_mem_cons.mpr ⟨⟨_, rfl, fits_leaf (by decide)⟩, ?_⟩
    | refine List.forall_mem_cons.mpr ⟨⟨_, rfl, ‹_›⟩, ?_⟩
  exact List.forall_mem_nil _

/-- **What is written of a class leads to it.** -/
theorem ofHeaderWireObjectIdGet_finds {j : OfObjectId} {tags : List Tag}
    (h : j.wireTypes = some tags) : Picker.Finds tags j ofHeaderWireObjectIdGet := by
  cases j <;> cases h <;>
    (repeat' first | exact finds_leaf _ _ | refine finds_switch rfl rfl ?_)

end OfVersion10

/-- What `of_x_push_wire_types` writes fits into the fixed part of the class. -/
lemma ok_of_fixedLen {j : OfObjectId} {tags : List Tag} {n : ℕ} (h : j.wireTypes = some tags)
    (hn : ofObjectFixedLenV1 j ≤ n) : ∀ c ∈ tags, c.Ok n := by
  intro c hc
  obtain ⟨hle, hlt⟩ := (wireTypes_ok h).1 c hc
  exact ⟨by omega, hlt⟩

/-- **What is read of an accepted message.** Let there be at least `len` bytes of a message of
version `1.0`, and let them be accepted. Then `of_header_wire_object_id_get` reads nothing behind
them and finds a class for which `loci_validate_of_x_OF_VERSION_1_0` accepts the message, too; there
is this class in version `1.0`, as the initialiser asserts, and its fixed part lies in the message.
Of the classes that have an `of_x_push_wire_types`, it is the one for which this would change
nothing.

**Proof sketch.** An accepted message is one that the validator accepts, so that its class fits
(`OfVersion10.ofHeaderWireObjectIdGet_fits`), and what is written of a class that is there leads to
it (`OfVersion10.ofHeaderWireObjectIdGet_finds`). -/
theorem ofHeaderWireObjectIdGet_of10 (L : Loci) (msg : List UInt8) (len : ℕ)
    (hlen : len ≤ msg.length) (hver : ofMessageVersionGet msg = 1)
    (hsome : (ofObjectNewFromMessage L.of10 msg len).isSome) :
    ∃ i, ofHeaderWireObjectIdGet.pick (msg.take len) = some i ∧
      ofHeaderWireObjectIdGet.pick msg = some i ∧
      i.validator.validate msg len = .accepted len ∧
      0 ≤ ofObjectFixedLenV1 i ∧ ofObjectFixedLenV1 i ≤ len ∧
      ∀ j, j.wireTypes.isSome → ofObjectFixedLenV1 j ≤ len →
        (i = j ↔ j.pushWireTypes (msg.take len) = msg.take len) := by
  have hwell := (ofObjectNewFromMessage_of10_isSome hlen hver).mp hsome
  have hb : (msg.take len).length = len := List.length_take_of_le hlen
  have hversion : ∀ c ∈ ([((0, 1), 1)] : List Tag), c.In (msg.take len) := by
    intro c hc
    obtain rfl := List.mem_singleton.mp hc
    have hlong := hwell.header.1
    change number (msg.take len) 0 1 = 1
    rw [number_take (by omega), number_one (by omega)]
    exact hver
  obtain ⟨i, hpick, henc, htypes⟩ := ofHeaderWireObjectIdGet_fits _ hwell hversion
  have hfixed := fixedLen_le i henc
  rw [hb] at hfixed
  refine ⟨i, hpick, ofHeaderWireObjectIdGet.stable hpick,
    (i.validator.accepts hlen).mpr ⟨le_rfl, henc⟩, hfixed.1, hfixed.2, fun j hj hjlen => ?_⟩
  obtain ⟨tags, htags⟩ := Option.isSome_iff_exists.mp hj
  have hok : ∀ c ∈ tags, c.Ok (msg.take len).length := by
    rw [hb]
    exact ok_of_fixedLen htags hjlen
  rw [OfObjectId.pushWireTypes, htags, Option.getD_some, push_eq_iff hok (wireTypes_ok htags).2]
  constructor
  · rintro rfl
    exact htypes tags htags
  · intro hin
    have hj := ofHeaderWireObjectIdGet_finds htags _ hin fun c hc => (hok c hc).1
    exact Option.some.inj (hpick.symm.trans hj)

/-- A flow modification that adds a flow, with a byte behind it. -/
theorem ofHeaderWireObjectIdGet_of10_flowAdd :
    ofHeaderWireObjectIdGet.pick
        ([1, 14, 0, 72, 0, 0, 0, 7] ++ List.replicate 64 0 ++ [5]) = some .flowAdd ∧
      OfObjectId.pushWireTypes .hello ([1, 14, 0, 72, 0, 0, 0, 7] ++ List.replicate 64 0) ≠
        [1, 14, 0, 72, 0, 0, 0, 7] ++ List.replicate 64 0 := by
  obtain ⟨i, -, hpick, -, -, -, hiff⟩ := ofHeaderWireObjectIdGet_of10 Loci.lenient
    ([1, 14, 0, 72, 0, 0, 0, 7] ++ List.replicate 64 0 ++ [5]) 72 (by decide) (by decide)
    (by decide +kernel)
  obtain rfl := (hiff .flowAdd rfl (by decide)).mpr (by decide +kernel)
  refine ⟨hpick, fun h => ?_⟩
  have hello := (hiff .hello rfl (by decide)).mpr h
  cases hello

/-- **Classes are found again.** What `of_x_push_wire_types` has written to a block that is long
enough for the class makes `of_header_wire_object_id_get` find this class, whatever else there is in
the block.

**Proof sketch.** What is written stays, since it does not overlap, and leads to the class
(`OfVersion10.ofHeaderWireObjectIdGet_finds`). -/
theorem ofHeaderWireObjectIdGet_push (j : OfObjectId) (buf : List UInt8)
    (hj : j.wireTypes.isSome) (hlen : ofObjectFixedLenV1 j ≤ buf.length) :
    ofHeaderWireObjectIdGet.pick (j.pushWireTypes buf) = some j ∧
      (j.pushWireTypes buf).length = buf.length ∧
      j.pushWireTypes (j.pushWireTypes buf) = j.pushWireTypes buf := by
  obtain ⟨tags, htags⟩ := Option.isSome_iff_exists.mp hj
  have hok := ok_of_fixedLen htags hlen
  have hapart := (wireTypes_ok htags).2
  have hin : ∀ c ∈ tags, c.In (push tags buf) := fun c hc => in_push hok hapart hc
  have hok' : ∀ c ∈ tags, c.Ok (push tags buf).length := by
    rw [length_push hok]
    exact hok
  rw [OfObjectId.pushWireTypes, htags, Option.getD_some]
  refine ⟨?_, length_push hok, ?_⟩
  · exact ofHeaderWireObjectIdGet_finds htags _ hin fun c hc => (hok' c hc).1
  · rw [OfObjectId.pushWireTypes, htags, Option.getD_some]
    exact (push_eq_iff hok' hapart).mpr hin

/-- A block of zeros becomes a message that modifies a flow. -/
theorem ofHeaderWireObjectIdGet_push_flowModify :
    ofHeaderWireObjectIdGet.pick (OfObjectId.pushWireTypes .flowModify (List.replicate 72 0)) =
      some .flowModify :=
  (ofHeaderWireObjectIdGet_push .flowModify (List.replicate 72 0) rfl (by decide)).1

end Mproxy
