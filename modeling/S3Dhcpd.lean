import S3Dhcpd.KeyedTable
import S3Dhcpd.Runs
import S3Dhcpd.LeaseRegister
import S3Dhcpd.Tools
import S3Dhcpd.AddressRanges
import S3Dhcpd.Apprc
import S3Dhcpd.Subnets
import S3Dhcpd.Allocator
import S3Dhcpd.AllocatorSteps
import S3Dhcpd.Populate
import S3Dhcpd.Calls
import S3Dhcpd.Exclusivity
import S3Dhcpd.Stability
import S3Dhcpd.Exhaustion
import S3Dhcpd.Packet
import S3Dhcpd.MainLoop
import S3Dhcpd.PoolGrants
import S3Dhcpd.ServerFaults
import S3Dhcpd.Commits
import S3Dhcpd.Interference
import S3Dhcpd.Exclusion
import S3Dhcpd.LiveEdits
import S3Dhcpd.Restarts
import S3Dhcpd.RowPerAddress
import S3Dhcpd.Admission
import S3Dhcpd.Withdrawal
import S3Dhcpd.Replies
import S3Dhcpd.Declines
import S3Dhcpd.ByteMemory
import S3Dhcpd.Wire
import S3Dhcpd.Codec
import S3Dhcpd.OptionArea
import S3Dhcpd.OptionSlots
import S3Dhcpd.StoredColumns
import S3Dhcpd.StoredTurns
import S3Dhcpd.WireReplies
import S3Dhcpd.ReadLog
import S3Dhcpd.RadiusPacket
import S3Dhcpd.RadiusWire
import S3Dhcpd.RadiusCodec
import S3Dhcpd.RadiusBounds
import S3Dhcpd.LeaseTime
import S3Dhcpd.Clocks
import S3Dhcpd.Disclosure
import S3Dhcpd.OptionGrammar
import S3Dhcpd.OptionAccess
import S3Dhcpd.Capture
import S3Dhcpd.OnesComplement
import S3Dhcpd.Frames
import S3Dhcpd.Checksums
import S3Dhcpd.Broadcasts
import S3Dhcpd.Renewals
import S3Dhcpd.Probing
import S3Dhcpd.HashTable
import S3Dhcpd.HashProbes
import S3Dhcpd.HashInserts
import S3Dhcpd.RcTable
import S3Dhcpd.RcLine
import S3Dhcpd.RcCondition
import S3Dhcpd.RcLoad
import S3Dhcpd.RcRuns
import S3Dhcpd.RcBuffer
import S3Dhcpd.RcFates
import S3Dhcpd.RcTermination
import S3Dhcpd.RcHash
import S3Dhcpd.RcScan
import S3Dhcpd.RcKeeps
import S3Dhcpd.RcPairs
import S3Dhcpd.RcLastLine
import S3Dhcpd.RcBlocks
import S3Dhcpd.RcInactive
import S3Dhcpd.RcConditionChains
import S3Dhcpd.RcEscapes
import S3Dhcpd.RcPlain
import S3Dhcpd.AddressTexts
import S3Dhcpd.Strstream
import S3Dhcpd.KeyStack
import S3Dhcpd.Form
import S3Dhcpd.HashCycles
import S3Dhcpd.RcIncludes
import S3Dhcpd.RcArrays
import S3Dhcpd.RcWrites
import S3Dhcpd.RcDump
import S3Dhcpd.BlockChaining
import S3Dhcpd.Md5
import S3Dhcpd.Md5Stream
import S3Dhcpd.RadiusNet
import S3Dhcpd.Effects
import S3Dhcpd.PacketFilter
import S3Dhcpd.Accounting
import S3Dhcpd.PidFile
import S3Dhcpd.Settings
import S3Dhcpd.Getopt
import S3Dhcpd.CommandLine
import S3Dhcpd.Network
import S3Dhcpd.Stations
import S3Dhcpd.WireLeases
