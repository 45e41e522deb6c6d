import Nanos3Reader.Bindings.ShortReads
import Nanos3Reader.Client.BucketListing
import Nanos3Reader.Client.Contract
import Nanos3Reader.Client.CutPages
import Nanos3Reader.Client.Pagination
import Nanos3Reader.Client.PlainHttp
import Nanos3Reader.Client.UploadLimit
import Nanos3Reader.ConcurrentCalls
import Nanos3Reader.Credentials.Fields
import Nanos3Reader.Credentials.Imds
import Nanos3Reader.Credentials.Profiles
import Nanos3Reader.DiskCache.Lru
import Nanos3Reader.DiskCache.Torn
import Nanos3Reader.ObjectUris
import Nanos3Reader.Request.Streaming
import Nanos3Reader.Sha256.File
import Nanos3Reader.Stream.SeekArithmetic
import Nanos3Reader.Stream.WarmReads
import Nanos3Reader.Tampering
import Nanos3Reader.Tools.S3PutMain
import Nanos3Reader.Xml.Entities
import Nanos3Reader.Xml.Numbers
