/-
Ddup.Command.Table — the command table of `core/command.c`.

`CmdId` is the enumeration of `core/command.h`; `unknown` is `CMD_ID_UNKNOWN`.
The table gives each command its lower-case name, its arity bounds (a maximum of
`none` is the C value -1), the parity its argument count must have when it is
queued in a transaction, and whether it writes.
-/
import Ddup.Command.Args

namespace Ddup.Command

inductive CmdId
  | unknown
  | ping | echo | get | set | dump | restore | migrate | asking | del | unlink | exists
  | incr | decr | append | strlen | mget | mset | expire | pexpire | expireat
  | pexpireat | ttl | pttl | persist | dbsize | flushdb | config | info | hset | hmset
  | hget | hdel | hexists | hlen | hgetall | hkeys | hvals | hmget | hincrby | hsetnx
  | lpush | rpush | lpushx | rpushx | lpop | rpop | llen | lrange | lindex | lset
  | sadd | srem | sismember | smismember | scard | smembers | spop | srandmember
  | smove | sinter | sunion | sdiff | zadd | zscore | zcard | zincrby | zrem | zrange
  | zrevrange | zrank | zrevrank | zcount | zrangebyscore | zremrangebyscore | multi
  | exec | discard | watch | unwatch | subscribe | unsubscribe | publish | quit | sync
  | psync | replicaof | save | lastsave | shutdown | cluster | auth | select | swapdb
  | eval | evalsha | script | ssubscribe | sunsubscribe | spublish | pubsub | type
  | keys | scan | rename | renamenx | touch | randomkey | expiretime | pexpiretime
  | getdel | getex | setex | psetex | getset | setrange | getrange | incrby | decrby
  | incrbyfloat | hstrlen | hrandfield | lpos | lrem | ltrim | rpoplpush | linsert
  | lmove | lmovem | lmpop | sintercard | sinterstore | sunionstore | sdiffstore
  | zpopmin | zpopmax | zremrangebyrank | zmscore | zrandmember | zrangebylex
  | zrevrangebylex | zremrangebylex | psubscribe | punsubscribe | copy | object | setnx
  | msetnx | getbit | setbit | bitcount | bitpos | bitop | bitfield | bitfieldRo
  | zunionstore | zinterstore | zdiffstore | zunion | zinter | zdiff | zintercard
  | zlexcount | zrevrangebyscore | zrangestore | zmpop | hscan | sscan | zscan
  | flushall | time | hincrbyfloat | readonly | readwrite | substr | slaveof | move
  | role | reset | hello | lcs | sort | sortRo | pfadd | pfcount | pfdebug | pfmerge
  | pfselftest | geoadd | geodist | geohash | geopos | georadius | georadiusRo
  | georadiusbymember | georadiusbymemberRo | geosearch | geosearchstore | command
  | client | memory | slowlog | bgsave | bgrewriteaof | xadd | xlen | xrange
  | xrevrange | xdel | xdelex | xtrim | xgroup | xack | xackdel | xpending | xclaim
  | xautoclaim | xnack | xread | xreadgroup | xinfo | xsetid | xcfgset | xidmprecord
  | evalRo | evalshaRo | restoreAsking | lolwut | fcall | fcallRo | function | blpop
  | brpop | brpoplpush | blmove | blmovem | blmpop | bzpopmin | bzpopmax | bzmpop
  | wait | waitaof | replconf | failover | monitor | acl | debug | latency | module
  | sentinel | hgetdel | hsetex | hgetex | hexpire | hpexpire | hexpireat | hpexpireat
  | hpersist | httl | hpttl | hexpiretime | hpexpiretime | sunioncard | sdiffcard
  | increx | msetex | delex | digest | sflush | trimslots | backup | himport | hotkeys
  | arset | arget | arlen | arcount | argetrange | armget | ardel | ardelrange | armset
  | arnext | arseek | arinsert | arring | arscan | arinfo | arlastitems | arop | argrep
deriving Repr, DecidableEq

structure CmdEntry where
  name : String
  id : CmdId
  minArgc : Nat
  maxArgc : Option Nat
  parity : Nat
  writes : Bool

def cmdTable : List CmdEntry := [
  ⟨"ping", .ping, 1, some 2, 0, false⟩, ⟨"echo", .echo, 2, some 2, 0, false⟩,
  ⟨"get", .get, 2, some 2, 0, false⟩, ⟨"set", .set, 3, none, 0, true⟩,
  ⟨"dump", .dump, 2, some 2, 0, false⟩, ⟨"restore", .restore, 4, none, 0, true⟩,
  ⟨"migrate", .migrate, 6, none, 0, true⟩, ⟨"asking", .asking, 1, some 1, 0, false⟩,
  ⟨"del", .del, 2, none, 0, true⟩, ⟨"unlink", .unlink, 2, none, 0, true⟩,
  ⟨"exists", .exists, 2, none, 0, false⟩, ⟨"incr", .incr, 2, some 2, 0, true⟩,
  ⟨"decr", .decr, 2, some 2, 0, true⟩, ⟨"append", .append, 3, some 3, 0, true⟩,
  ⟨"strlen", .strlen, 2, some 2, 0, false⟩, ⟨"mget", .mget, 2, none, 0, false⟩,
  ⟨"mset", .mset, 3, none, 1, true⟩, ⟨"expire", .expire, 3, some 7, 0, true⟩,
  ⟨"pexpire", .pexpire, 3, some 7, 0, true⟩, ⟨"expireat", .expireat, 3, some 7, 0, true⟩,
  ⟨"pexpireat", .pexpireat, 3, some 7, 0, true⟩, ⟨"ttl", .ttl, 2, some 2, 0, false⟩,
  ⟨"pttl", .pttl, 2, some 2, 0, false⟩, ⟨"persist", .persist, 2, some 2, 0, true⟩,
  ⟨"dbsize", .dbsize, 1, some 1, 0, false⟩, ⟨"flushdb", .flushdb, 1, some 2, 0, true⟩,
  ⟨"config", .config, 2, none, 0, false⟩, ⟨"info", .info, 1, none, 0, false⟩,
  ⟨"hset", .hset, 4, none, 2, true⟩, ⟨"hmset", .hmset, 4, none, 2, true⟩,
  ⟨"hget", .hget, 3, some 3, 0, false⟩, ⟨"hdel", .hdel, 3, none, 0, true⟩,
  ⟨"hexists", .hexists, 3, some 3, 0, false⟩, ⟨"hlen", .hlen, 2, some 2, 0, false⟩,
  ⟨"hgetall", .hgetall, 2, some 2, 0, false⟩, ⟨"hkeys", .hkeys, 2, some 2, 0, false⟩,
  ⟨"hvals", .hvals, 2, some 2, 0, false⟩, ⟨"hmget", .hmget, 3, none, 0, false⟩,
  ⟨"hincrby", .hincrby, 4, some 4, 0, true⟩, ⟨"hsetnx", .hsetnx, 4, some 4, 0, true⟩,
  ⟨"lpush", .lpush, 3, none, 0, true⟩, ⟨"rpush", .rpush, 3, none, 0, true⟩,
  ⟨"lpushx", .lpushx, 3, none, 0, true⟩, ⟨"rpushx", .rpushx, 3, none, 0, true⟩,
  ⟨"lpop", .lpop, 2, some 3, 0, true⟩, ⟨"rpop", .rpop, 2, some 3, 0, true⟩,
  ⟨"llen", .llen, 2, some 2, 0, false⟩, ⟨"lrange", .lrange, 4, some 4, 0, false⟩,
  ⟨"lindex", .lindex, 3, some 3, 0, false⟩, ⟨"lset", .lset, 4, some 4, 0, true⟩,
  ⟨"sadd", .sadd, 3, none, 0, true⟩, ⟨"srem", .srem, 3, none, 0, true⟩,
  ⟨"sismember", .sismember, 3, some 3, 0, false⟩, ⟨"smismember", .smismember, 3, none, 0, false⟩,
  ⟨"scard", .scard, 2, some 2, 0, false⟩, ⟨"smembers", .smembers, 2, some 2, 0, false⟩,
  ⟨"spop", .spop, 2, some 3, 0, true⟩, ⟨"srandmember", .srandmember, 2, some 3, 0, false⟩,
  ⟨"smove", .smove, 4, some 4, 0, true⟩, ⟨"sinter", .sinter, 2, none, 0, false⟩,
  ⟨"sunion", .sunion, 2, none, 0, false⟩, ⟨"sdiff", .sdiff, 2, none, 0, false⟩,
  ⟨"zadd", .zadd, 4, none, 0, true⟩, ⟨"zscore", .zscore, 3, some 3, 0, false⟩,
  ⟨"zcard", .zcard, 2, some 2, 0, false⟩, ⟨"zincrby", .zincrby, 4, some 4, 0, true⟩,
  ⟨"zrem", .zrem, 3, none, 0, true⟩, ⟨"zrange", .zrange, 4, none, 0, false⟩,
  ⟨"zrevrange", .zrevrange, 4, some 5, 0, false⟩, ⟨"zrank", .zrank, 3, some 4, 0, false⟩,
  ⟨"zrevrank", .zrevrank, 3, some 4, 0, false⟩, ⟨"zcount", .zcount, 4, some 4, 0, false⟩,
  ⟨"zrangebyscore", .zrangebyscore, 4, none, 0, false⟩,
  ⟨"zremrangebyscore", .zremrangebyscore, 4, some 4, 0, true⟩,
  ⟨"multi", .multi, 1, some 1, 0, false⟩, ⟨"exec", .exec, 1, some 1, 0, false⟩,
  ⟨"discard", .discard, 1, some 1, 0, false⟩, ⟨"watch", .watch, 2, none, 0, false⟩,
  ⟨"unwatch", .unwatch, 1, some 1, 0, false⟩, ⟨"subscribe", .subscribe, 2, none, 0, false⟩,
  ⟨"unsubscribe", .unsubscribe, 1, none, 0, false⟩, ⟨"publish", .publish, 3, some 3, 0, false⟩,
  ⟨"quit", .quit, 1, some 1, 0, false⟩, ⟨"sync", .sync, 1, some 1, 0, false⟩,
  ⟨"psync", .psync, 3, some 3, 0, false⟩, ⟨"replicaof", .replicaof, 3, some 3, 0, false⟩,
  ⟨"save", .save, 1, some 1, 0, false⟩, ⟨"lastsave", .lastsave, 1, some 1, 0, false⟩,
  ⟨"shutdown", .shutdown, 1, none, 0, false⟩, ⟨"cluster", .cluster, 2, none, 0, false⟩,
  ⟨"auth", .auth, 2, some 3, 0, false⟩, ⟨"select", .select, 2, some 2, 0, false⟩,
  ⟨"swapdb", .swapdb, 3, some 3, 0, true⟩, ⟨"eval", .eval, 3, none, 0, true⟩,
  ⟨"evalsha", .evalsha, 3, none, 0, true⟩, ⟨"script", .script, 2, none, 0, false⟩,
  ⟨"ssubscribe", .ssubscribe, 2, none, 0, false⟩,
  ⟨"sunsubscribe", .sunsubscribe, 1, none, 0, false⟩,
  ⟨"spublish", .spublish, 3, some 3, 0, false⟩, ⟨"pubsub", .pubsub, 2, none, 0, false⟩,
  ⟨"type", .type, 2, some 2, 0, false⟩, ⟨"keys", .keys, 2, some 2, 0, false⟩,
  ⟨"scan", .scan, 2, none, 0, false⟩, ⟨"rename", .rename, 3, some 3, 0, true⟩,
  ⟨"renamenx", .renamenx, 3, some 3, 0, true⟩, ⟨"touch", .touch, 2, none, 0, false⟩,
  ⟨"randomkey", .randomkey, 1, some 1, 0, false⟩,
  ⟨"expiretime", .expiretime, 2, some 2, 0, false⟩,
  ⟨"pexpiretime", .pexpiretime, 2, some 2, 0, false⟩, ⟨"getdel", .getdel, 2, some 2, 0, true⟩,
  ⟨"getex", .getex, 2, none, 0, true⟩, ⟨"setex", .setex, 4, some 4, 0, true⟩,
  ⟨"psetex", .psetex, 4, some 4, 0, true⟩, ⟨"getset", .getset, 3, some 3, 0, true⟩,
  ⟨"setrange", .setrange, 4, some 4, 0, true⟩, ⟨"getrange", .getrange, 4, some 4, 0, false⟩,
  ⟨"incrby", .incrby, 3, some 3, 0, true⟩, ⟨"decrby", .decrby, 3, some 3, 0, true⟩,
  ⟨"incrbyfloat", .incrbyfloat, 3, some 3, 0, true⟩, ⟨"hstrlen", .hstrlen, 3, some 3, 0, false⟩,
  ⟨"hrandfield", .hrandfield, 2, some 4, 0, false⟩, ⟨"lpos", .lpos, 3, none, 0, false⟩,
  ⟨"lrem", .lrem, 4, some 4, 0, true⟩, ⟨"ltrim", .ltrim, 4, some 4, 0, true⟩,
  ⟨"rpoplpush", .rpoplpush, 3, some 3, 0, true⟩, ⟨"linsert", .linsert, 5, some 5, 0, true⟩,
  ⟨"lmove", .lmove, 5, some 5, 0, true⟩, ⟨"lmovem", .lmovem, 5, none, 0, true⟩,
  ⟨"lmpop", .lmpop, 4, none, 0, true⟩, ⟨"sintercard", .sintercard, 3, none, 0, false⟩,
  ⟨"sinterstore", .sinterstore, 3, none, 0, true⟩,
  ⟨"sunionstore", .sunionstore, 3, none, 0, true⟩, ⟨"sdiffstore", .sdiffstore, 3, none, 0, true⟩,
  ⟨"zpopmin", .zpopmin, 2, some 3, 0, true⟩, ⟨"zpopmax", .zpopmax, 2, some 3, 0, true⟩,
  ⟨"zremrangebyrank", .zremrangebyrank, 4, some 4, 0, true⟩,
  ⟨"zmscore", .zmscore, 3, none, 0, false⟩, ⟨"zrandmember", .zrandmember, 2, some 4, 0, false⟩,
  ⟨"zrangebylex", .zrangebylex, 4, none, 0, false⟩,
  ⟨"zrevrangebylex", .zrevrangebylex, 4, none, 0, false⟩,
  ⟨"zremrangebylex", .zremrangebylex, 4, some 4, 0, true⟩,
  ⟨"psubscribe", .psubscribe, 2, none, 0, false⟩,
  ⟨"punsubscribe", .punsubscribe, 1, none, 0, false⟩, ⟨"copy", .copy, 3, none, 0, true⟩,
  ⟨"object", .object, 2, some 3, 0, false⟩, ⟨"setnx", .setnx, 3, some 3, 0, true⟩,
  ⟨"msetnx", .msetnx, 3, none, 1, true⟩, ⟨"getbit", .getbit, 3, some 3, 0, false⟩,
  ⟨"setbit", .setbit, 4, some 4, 0, true⟩, ⟨"bitcount", .bitcount, 2, some 4, 0, false⟩,
  ⟨"bitpos", .bitpos, 3, some 5, 0, false⟩, ⟨"bitop", .bitop, 4, none, 0, true⟩,
  ⟨"bitfield", .bitfield, 2, none, 0, true⟩, ⟨"bitfield_ro", .bitfieldRo, 2, none, 0, false⟩,
  ⟨"zunionstore", .zunionstore, 4, none, 0, true⟩,
  ⟨"zinterstore", .zinterstore, 4, none, 0, true⟩, ⟨"zdiffstore", .zdiffstore, 4, none, 0, true⟩,
  ⟨"zunion", .zunion, 3, none, 0, false⟩, ⟨"zinter", .zinter, 3, none, 0, false⟩,
  ⟨"zdiff", .zdiff, 3, none, 0, false⟩, ⟨"zintercard", .zintercard, 3, none, 0, false⟩,
  ⟨"zlexcount", .zlexcount, 4, some 4, 0, false⟩,
  ⟨"zrevrangebyscore", .zrevrangebyscore, 4, none, 0, false⟩,
  ⟨"zrangestore", .zrangestore, 5, none, 0, true⟩, ⟨"zmpop", .zmpop, 4, none, 0, true⟩,
  ⟨"hscan", .hscan, 3, none, 0, false⟩, ⟨"sscan", .sscan, 3, none, 0, false⟩,
  ⟨"zscan", .zscan, 3, none, 0, false⟩, ⟨"flushall", .flushall, 1, some 2, 0, true⟩,
  ⟨"time", .time, 1, some 1, 0, false⟩, ⟨"hincrbyfloat", .hincrbyfloat, 4, some 4, 0, true⟩,
  ⟨"readonly", .readonly, 1, some 1, 0, false⟩, ⟨"readwrite", .readwrite, 1, some 1, 0, false⟩,
  ⟨"substr", .substr, 4, some 4, 0, false⟩, ⟨"slaveof", .slaveof, 3, some 3, 0, false⟩,
  ⟨"move", .move, 3, some 3, 0, true⟩, ⟨"role", .role, 1, some 1, 0, false⟩,
  ⟨"reset", .reset, 1, some 1, 0, false⟩, ⟨"hello", .hello, 1, none, 0, false⟩,
  ⟨"lcs", .lcs, 3, none, 0, false⟩, ⟨"sort", .sort, 2, none, 0, true⟩,
  ⟨"sort_ro", .sortRo, 2, none, 0, false⟩, ⟨"pfadd", .pfadd, 2, none, 0, true⟩,
  ⟨"pfcount", .pfcount, 2, none, 0, false⟩, ⟨"pfdebug", .pfdebug, 3, some 3, 0, true⟩,
  ⟨"pfmerge", .pfmerge, 2, none, 0, true⟩, ⟨"pfselftest", .pfselftest, 1, some 1, 0, false⟩,
  ⟨"geoadd", .geoadd, 5, none, 0, true⟩, ⟨"geodist", .geodist, 4, some 5, 0, false⟩,
  ⟨"geohash", .geohash, 2, none, 0, false⟩, ⟨"geopos", .geopos, 2, none, 0, false⟩,
  ⟨"georadius", .georadius, 6, none, 0, true⟩, ⟨"georadius_ro", .georadiusRo, 6, none, 0, false⟩,
  ⟨"georadiusbymember", .georadiusbymember, 5, none, 0, true⟩,
  ⟨"georadiusbymember_ro", .georadiusbymemberRo, 5, none, 0, false⟩,
  ⟨"geosearch", .geosearch, 7, none, 0, false⟩,
  ⟨"geosearchstore", .geosearchstore, 8, none, 0, true⟩, ⟨"command", .command, 1, none, 0, false⟩,
  ⟨"client", .client, 2, none, 0, false⟩, ⟨"memory", .memory, 2, none, 0, false⟩,
  ⟨"slowlog", .slowlog, 2, none, 0, false⟩, ⟨"bgsave", .bgsave, 1, some 2, 0, false⟩,
  ⟨"bgrewriteaof", .bgrewriteaof, 1, some 1, 0, false⟩, ⟨"xadd", .xadd, 5, none, 0, true⟩,
  ⟨"xlen", .xlen, 2, some 2, 0, false⟩, ⟨"xrange", .xrange, 4, none, 0, false⟩,
  ⟨"xrevrange", .xrevrange, 4, none, 0, false⟩, ⟨"xdel", .xdel, 3, none, 0, true⟩,
  ⟨"xdelex", .xdelex, 5, none, 0, true⟩, ⟨"xtrim", .xtrim, 4, none, 0, true⟩,
  ⟨"xgroup", .xgroup, 2, none, 0, true⟩, ⟨"xack", .xack, 4, none, 0, true⟩,
  ⟨"xackdel", .xackdel, 6, none, 0, true⟩, ⟨"xpending", .xpending, 3, some 7, 0, false⟩,
  ⟨"xclaim", .xclaim, 6, none, 0, true⟩, ⟨"xautoclaim", .xautoclaim, 6, none, 0, true⟩,
  ⟨"xnack", .xnack, 7, none, 0, true⟩, ⟨"xread", .xread, 4, none, 0, false⟩,
  ⟨"xreadgroup", .xreadgroup, 7, none, 0, true⟩, ⟨"xinfo", .xinfo, 2, none, 0, false⟩,
  ⟨"xsetid", .xsetid, 3, none, 0, true⟩, ⟨"xcfgset", .xcfgset, 2, none, 0, true⟩,
  ⟨"xidmprecord", .xidmprecord, 5, some 5, 0, true⟩, ⟨"eval_ro", .evalRo, 3, none, 0, false⟩,
  ⟨"evalsha_ro", .evalshaRo, 3, none, 0, false⟩,
  ⟨"restore-asking", .restoreAsking, 4, none, 0, true⟩, ⟨"lolwut", .lolwut, 1, none, 0, false⟩,
  ⟨"fcall", .fcall, 3, none, 0, true⟩, ⟨"fcall_ro", .fcallRo, 3, none, 0, false⟩,
  ⟨"function", .function, 2, none, 0, true⟩, ⟨"blpop", .blpop, 3, none, 0, true⟩,
  ⟨"brpop", .brpop, 3, none, 0, true⟩, ⟨"brpoplpush", .brpoplpush, 4, some 4, 0, true⟩,
  ⟨"blmove", .blmove, 6, some 6, 0, true⟩, ⟨"blmovem", .blmovem, 6, none, 0, true⟩,
  ⟨"blmpop", .blmpop, 5, none, 0, true⟩, ⟨"bzpopmin", .bzpopmin, 3, none, 0, true⟩,
  ⟨"bzpopmax", .bzpopmax, 3, none, 0, true⟩, ⟨"bzmpop", .bzmpop, 5, none, 0, true⟩,
  ⟨"wait", .wait, 3, some 3, 0, false⟩, ⟨"waitaof", .waitaof, 4, some 4, 0, false⟩,
  ⟨"replconf", .replconf, 1, none, 0, false⟩, ⟨"failover", .failover, 1, none, 0, true⟩,
  ⟨"monitor", .monitor, 1, some 1, 0, false⟩, ⟨"acl", .acl, 2, none, 0, false⟩,
  ⟨"debug", .debug, 2, none, 0, false⟩, ⟨"latency", .latency, 2, none, 0, false⟩,
  ⟨"module", .module, 2, none, 0, false⟩, ⟨"sentinel", .sentinel, 2, none, 0, false⟩,
  ⟨"hgetdel", .hgetdel, 5, none, 0, true⟩, ⟨"hsetex", .hsetex, 6, none, 0, true⟩,
  ⟨"hgetex", .hgetex, 5, none, 0, true⟩, ⟨"hexpire", .hexpire, 6, none, 0, true⟩,
  ⟨"hpexpire", .hpexpire, 6, none, 0, true⟩, ⟨"hexpireat", .hexpireat, 6, none, 0, true⟩,
  ⟨"hpexpireat", .hpexpireat, 6, none, 0, true⟩, ⟨"hpersist", .hpersist, 5, none, 0, true⟩,
  ⟨"httl", .httl, 5, none, 0, false⟩, ⟨"hpttl", .hpttl, 5, none, 0, false⟩,
  ⟨"hexpiretime", .hexpiretime, 5, none, 0, false⟩,
  ⟨"hpexpiretime", .hpexpiretime, 5, none, 0, false⟩,
  ⟨"sunioncard", .sunioncard, 3, none, 0, false⟩, ⟨"sdiffcard", .sdiffcard, 3, none, 0, false⟩,
  ⟨"increx", .increx, 2, none, 0, true⟩, ⟨"msetex", .msetex, 4, none, 0, true⟩,
  ⟨"delex", .delex, 2, none, 0, true⟩, ⟨"digest", .digest, 2, some 2, 0, false⟩,
  ⟨"sflush", .sflush, 3, none, 0, true⟩, ⟨"trimslots", .trimslots, 5, none, 0, true⟩,
  ⟨"backup", .backup, 2, some 2, 0, false⟩, ⟨"himport", .himport, 2, none, 0, true⟩,
  ⟨"hotkeys", .hotkeys, 2, none, 0, false⟩, ⟨"arset", .arset, 4, none, 0, true⟩,
  ⟨"arget", .arget, 3, some 3, 0, false⟩, ⟨"arlen", .arlen, 2, some 2, 0, false⟩,
  ⟨"arcount", .arcount, 2, some 2, 0, false⟩, ⟨"argetrange", .argetrange, 4, some 4, 0, false⟩,
  ⟨"armget", .armget, 3, none, 0, false⟩, ⟨"ardel", .ardel, 3, none, 0, true⟩,
  ⟨"ardelrange", .ardelrange, 4, none, 0, true⟩, ⟨"armset", .armset, 4, none, 0, true⟩,
  ⟨"arnext", .arnext, 2, some 2, 0, false⟩, ⟨"arseek", .arseek, 3, some 3, 0, true⟩,
  ⟨"arinsert", .arinsert, 3, none, 0, true⟩, ⟨"arring", .arring, 4, none, 0, true⟩,
  ⟨"arscan", .arscan, 4, none, 0, false⟩, ⟨"arinfo", .arinfo, 2, some 3, 0, false⟩,
  ⟨"arlastitems", .arlastitems, 3, some 4, 0, false⟩, ⟨"arop", .arop, 5, some 6, 0, false⟩,
  ⟨"argrep", .argrep, 6, none, 0, false⟩ ]

/-- `cmd_resolve`: the id of a name in any case. The C code probes a hash table
built from `CMD_TABLE`; the names are distinct, so the entry it lands on is the
one with that name. -/
def cmdResolve (name : Bytes) : CmdId :=
  if name.length = 0 ∨ 255 < name.length then .unknown
  else ((cmdTable.find? fun e => ciEqual name (text e.name)).map (·.id)).getD .unknown

def cmdTableEntry (id : CmdId) : Option CmdEntry := cmdTable.find? (·.id = id)

def cmdIsWrite (id : CmdId) : Bool := (cmdTableEntry id).any (·.writes)

end Ddup.Command
